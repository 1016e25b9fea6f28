import Lilac.Data.Decoding
import Lilac.FileTree.Edit
import Lilac.Main
import Lilac.Proofs.Assembly
import Lilac.Proofs.Lines
import Lilac.Proofs.Documents
import Lilac.Proofs.Comments
import Lilac.Proofs.Grammar
import Lilac.Proofs.Positions
import Lilac.Proofs.Accounts
import Lilac.Proofs.Composition
import Lilac.Proofs.Persistence
import Lilac.Proofs.Layout
import Lilac.Proofs.Pages
import Lilac.Proofs.Dumps
import Lilac.Proofs.Exactness
import Lilac.Proofs.Exclusions
import Lilac.Proofs.Containment
import Lilac.Proofs.Descent
import Lilac.Proofs.Workspaces
import Lilac.Proofs.Violations
import Lilac.Proofs.Calls
import Lilac.Proofs.Printouts
import Lilac.Proofs.Routing
import Lilac.Proofs.Spellings
import Lilac.Proofs.Cuts
import Lilac.Proofs.Concealment
import Lilac.Proofs.Delimiters
import Lilac.Proofs.Normalisation
