import ScriptSpacing.Document
import ScriptSpacing.Main
import ScriptSpacing.Spacing.PresetFile
import ScriptSpacing.Token.Listing
import ScriptSpacing.Proofs.Document.Embraced
import ScriptSpacing.Proofs.Document.Limited
import ScriptSpacing.Proofs.Token.Lossless
import ScriptSpacing.Proofs.Spacing.LineBreaks
import ScriptSpacing.Proofs.Document.Precedence
import ScriptSpacing.Proofs.Syntax.Completeness.Program
import ScriptSpacing.Proofs.Syntax.Postorder
import ScriptSpacing.Proofs.Syntax.Descent.Total
import ScriptSpacing.Proofs.FileTree.Settled
import ScriptSpacing.Proofs.Token.Apart
import ScriptSpacing.Proofs.Document.LineEndings
import ScriptSpacing.Proofs.Spacing.LastLimit
import ScriptSpacing.Proofs.Spacing.Matching
import ScriptSpacing.Proofs.Document.Tallied
import ScriptSpacing.Proofs.Document.Reported
import ScriptSpacing.Proofs.Document.Blamed
import ScriptSpacing.Proofs.Text.Coordinates
import ScriptSpacing.Proofs.Syntax.Traversal
import ScriptSpacing.Proofs.FileTree.Collected
import ScriptSpacing.Proofs.Spacing.Layered
