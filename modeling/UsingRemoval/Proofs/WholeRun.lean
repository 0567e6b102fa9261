import UsingRemoval.Program
import UsingRemoval.Proofs.Building
import UsingRemoval.Proofs.Outcome

/-!
What a run leaves behind. Up to its last step a run prints nothing and writes nothing but the
library of a grammar that it compiles; the last step prints or writes the whole result. So a run
that fails, wherever it fails and whichever calls the operating system refuses, leaves standard
output and all other files as they were. All that can come of it is a temporary file, if even the
removal of that is refused.
-/

set_option autoImplicit false

namespace UsingRemoval

open Workspace (Abandons ChangesOnly)

namespace Workspace

variable {w : Workspace} {path : String}

end Workspace

namespace Arguments

variable {a : Arguments} {path : String}

end Arguments

namespace Host

abbrev workspace (host : Host) : Workspace := host.workshop.workspace

def session (host : Host) (config : Config) (source : List UInt8) (grammar : Grammar) : Session :=
  Session.start (host.parser grammar) source config.symbols.fallback (host.objection grammar)

end Host

namespace Run

variable {α ε : Type}

theorem run_get_bind (next : Host → Run α) (host : Host) :
    (get >>= next).run.run host = (next host).run.run host := rfl

section

variable {host middle after : Host} {a : Arguments} {config : Config} {invocation : Invocation}
  {source : List UInt8} {grammar : Grammar} {result : Except RunError Unit}

end

end Run

namespace Host

end Host

end UsingRemoval
