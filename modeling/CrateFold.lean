import CrateFold.Main
import CrateFold.ModulePath.Trail
import CrateFold.Proofs.Analysis
import CrateFold.Proofs.Candidates
import CrateFold.Proofs.CanonicalPaths
import CrateFold.Proofs.Carets
import CrateFold.Proofs.Colours
import CrateFold.Proofs.Comments
import CrateFold.Proofs.Delivery
import CrateFold.Proofs.EncodingErrors
import CrateFold.Proofs.Encounters
import CrateFold.Proofs.Ending
import CrateFold.Proofs.Expansion
import CrateFold.Proofs.FilesRead
import CrateFold.Proofs.Flaws
import CrateFold.Proofs.Inlining
import CrateFold.Proofs.Joining
import CrateFold.Proofs.LoadedNames
import CrateFold.Proofs.Locality
import CrateFold.Proofs.MacroInput
import CrateFold.Proofs.PathText
import CrateFold.Proofs.Phases
import CrateFold.Proofs.Pruning
import CrateFold.Proofs.Recording
import CrateFold.Proofs.RelativePaths
import CrateFold.Proofs.Removal
import CrateFold.Proofs.Reordering
import CrateFold.Proofs.Replacement
import CrateFold.Proofs.Restriction
import CrateFold.Proofs.Surroundings
import CrateFold.Proofs.UseTrees
import CrateFold.Proofs.ValidEdits
import CrateFold.Proofs.Visibility
import CrateFold.Proofs.Worklist
