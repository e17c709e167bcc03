import DeployRecipe.Main
import DeployRecipe.Proofs.Environment.History
import DeployRecipe.Proofs.Environment.Replacement
import DeployRecipe.Proofs.Schema.Kept
import DeployRecipe.Proofs.Schema.Sound
import DeployRecipe.Proofs.Entity.Kept
import DeployRecipe.Proofs.Entity.Binding
import DeployRecipe.Proofs.Entity.Keys
import DeployRecipe.Proofs.Entity.Slots
import DeployRecipe.Proofs.Entity.Apart
import DeployRecipe.Proofs.Entity.Mapping
import DeployRecipe.Proofs.Entity.UsedNames
import DeployRecipe.Proofs.Entity.BlockForm
import DeployRecipe.Proofs.Entity.Units
import DeployRecipe.Proofs.Entity.Services
import DeployRecipe.Proofs.Entity.ReadOnly
import DeployRecipe.Proofs.Compilation.Runs
import DeployRecipe.Proofs.Compilation.Preserves
import DeployRecipe.Proofs.FileTree
import DeployRecipe.Proofs.Environment.Order
import DeployRecipe.Proofs.Environment.Alike
import DeployRecipe.Proofs.Environment.Recording
import DeployRecipe.Proofs.Environment.Inheritance
import DeployRecipe.Proofs.Digest
import DeployRecipe.Proofs.Environment.Flat
import DeployRecipe.Proofs.Environment.Tree
import DeployRecipe.Proofs.Value
import DeployRecipe.Proofs.Properties
import DeployRecipe.Proofs.Compilation.Follows
import DeployRecipe.Proofs.Compilation.Steps
import DeployRecipe.Proofs.Compilation.Extension
import DeployRecipe.Proofs.Compilation.Standalone
import DeployRecipe.Proofs.Compilation.Assigned
import DeployRecipe.Proofs.Compilation.Duplicates
import DeployRecipe.Proofs.Compilation.Recipes
import DeployRecipe.Proofs.Compilation.Declarations
import DeployRecipe.Proofs.Compilation.Units
import DeployRecipe.Proofs.Compilation.Services
import DeployRecipe.Proofs.Compilation.Events
import DeployRecipe.Proofs.Compilation.Law
import DeployRecipe.Proofs.Compilation.Growth
import DeployRecipe.Proofs.Compilation.Lineage
import DeployRecipe.Proofs.Compilation.ReadOnly
import DeployRecipe.Proofs.Compilation.Agreement
import DeployRecipe.Proofs.Compilation.SameSources
import DeployRecipe.Proofs.Recipe.Canonical
import DeployRecipe.Proofs.Recipe.Lexemes
import DeployRecipe.Proofs.Recipe.Productions
import DeployRecipe.Proofs.Recipe.RoundTrip
import DeployRecipe.Proofs.PlainPath
import DeployRecipe.Proofs.Search
import DeployRecipe.Proofs.SharedPlace
import DeployRecipe.Proofs.MatchingTrees
import DeployRecipe.Proofs.Compilation.Shallow
import DeployRecipe.Proofs.Compilation.Moments
import DeployRecipe.Proofs.Compilation.Settles
import DeployRecipe.Proofs.Compilation.Ending
import DeployRecipe.Proofs.Compilation.Termination
import DeployRecipe.Proofs.Environment.Around
import DeployRecipe.Proofs.Compilation.ServiceEnvironment
import DeployRecipe.Proofs.Entity.Inner
import DeployRecipe.Proofs.Validation
import DeployRecipe.Proofs.Compilation.Roots
import DeployRecipe.Proofs.Compilation.Sites
import DeployRecipe.Proofs.Compilation.Raised
import DeployRecipe.Proofs.Compilation.ErrorChain
import DeployRecipe.Proofs.Compilation.Hidden
import DeployRecipe.Proofs.Compilation.InPlace
import DeployRecipe.Proofs.Entity.Separate
import DeployRecipe.Proofs.Compilation.Surroundings
import DeployRecipe.Proofs.Compilation.Pending
import DeployRecipe.Proofs.Compilation.Exchange
import DeployRecipe.Proofs.Compilation.Unnumbered
import DeployRecipe.Proofs.Compilation.Permuted
import DeployRecipe.Proofs.Recipe.Reading
import DeployRecipe.Proofs.Environment.Replay
import DeployRecipe.Proofs.Compilation.TopLevel
import DeployRecipe.Proofs.Compilation.Calls
import DeployRecipe.Proofs.Compilation.Ambient
import DeployRecipe.Proofs.Entity.Overriding
import DeployRecipe.Proofs.BaseReference
import DeployRecipe.Proofs.Compilation.Onward
import DeployRecipe.Proofs.Compilation.Cycles
import DeployRecipe.Proofs.Compilation.Recorded
import DeployRecipe.Proofs.Scaffold.Made
import DeployRecipe.Proofs.Recipe.Progress
import DeployRecipe.Proofs.Recipe.Lines
import DeployRecipe.Proofs.Compilation.Innermost
