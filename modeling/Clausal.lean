import Clausal.Proofs.Encoding.Counting
import Clausal.Proofs.Encoding.Sequence
import Clausal.Proofs.Encoding.Size
import Clausal.Proofs.Enumeration.Binary
import Clausal.Proofs.Formula.Measure
import Clausal.Proofs.Formula.Outcome
import Clausal.Proofs.Formula.Sameness
import Clausal.Proofs.Formula.Visit
import Clausal.Proofs.Naming.Pattern
import Clausal.Proofs.Relation
import Clausal.Proofs.Rendering
import Clausal.Proofs.Session.Conversion
import Clausal.Proofs.Session.Copying
import Clausal.Proofs.Session.Declaration
import Clausal.Proofs.Session.Handling
import Clausal.Proofs.Session.Isolation
import Clausal.Proofs.Session.Shared
import Clausal.Proofs.Session.Validity
import Clausal.Proofs.Store.Equality
import Clausal.Proofs.Theory.Partial
import Clausal.Proofs.Relation
