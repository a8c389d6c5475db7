/-
The accounts the program runs on, and the two programs it calls into: the SPL token program's
`transfer_checked`, `initialize_account`, `mint_to` and `set_authority`, and the system program's
`transfer`.

A record the program derives from a key is found under that key: a presale's state, vaults and
pool under its admin, a user's vesting and stake records under the user alone.
-/
import Presale.Program.State

namespace Presale

open Checked

structure World where
  clock : ℤ
  /-- `[presale_config, admin]` -/
  states : Pubkey → Option PresaleState
  /-- `[user_vesting, user]` -/
  vestings : Pubkey → Option UserVesting
  /-- `[stake_pool, state]` -/
  pools : Pubkey → Option StakePool
  /-- `[user_stake, user]` -/
  userStakes : Pubkey → Option UserStake
  mints : Pubkey → Option Mint
  tokenAccounts : Address → Option TokenAccount
  lamports : Address → ℕ
  log : List Event

namespace World

/-! ## Reading accounts -/

def account {α : Type} (o : Option α) : Except Error α := okOr o (.runtime .accountNotInitialized)

/-- A user's vesting record, all zeros before the first purchase. -/
def vesting (w : World) (u : Pubkey) : UserVesting := (w.vestings u).getD {}

/-- A user's stake record, all zeros before the first stake. -/
def userStake (w : World) (u : Pubkey) : UserStake := (w.userStakes u).getD {}

/-- The tokens in a token account, none when it does not exist. -/
def balance (w : World) (a : Address) : ℕ := ((w.tokenAccounts a).map (·.amount)).getD 0

/-! ## Writing accounts -/

@[simps -fullyApplied] def setState (w : World) (admin : Pubkey) (st : PresaleState) : World :=
  { w with states := Function.update w.states admin (some st) }

@[simps -fullyApplied] def setVesting (w : World) (u : Pubkey) (v : UserVesting) : World :=
  { w with vestings := Function.update w.vestings u (some v) }

@[simps -fullyApplied] def setPool (w : World) (admin : Pubkey) (p : StakePool) : World :=
  { w with pools := Function.update w.pools admin (some p) }

@[simps -fullyApplied] def setUserStake (w : World) (u : Pubkey) (s : UserStake) : World :=
  { w with userStakes := Function.update w.userStakes u (some s) }

@[simps -fullyApplied] def setMint (w : World) (k : Pubkey) (m : Mint) : World :=
  { w with mints := Function.update w.mints k (some m) }

@[simps -fullyApplied] def setTokenAccount (w : World) (a : Address) (t : TokenAccount) : World :=
  { w with tokenAccounts := Function.update w.tokenAccounts a (some t) }

@[simps -fullyApplied] def setLamports (w : World) (a : Address) (n : ℕ) : World :=
  { w with lamports := Function.update w.lamports a n }

@[simps -fullyApplied] def emit (w : World) (e : Event) : World := { w with log := w.log ++ [e] }

end World

/-! ## The token program -/

/-- `transfer_checked`: `amount` from `src` to `dst` under the signature of `authority`. A transfer
of an account to itself changes nothing. -/
def transferChecked (w : World) (src : Address) (mint : Pubkey) (dst authority : Address)
    (amount decimals : ℕ) : Except Error World := do
  let a ← World.account (w.tokenAccounts src)
  let b ← World.account (w.tokenAccounts dst)
  require (amount ≤ a.amount) (.runtime .insufficientFunds)
  require (a.mint = b.mint) (.runtime .mintMismatch)
  require (a.mint = mint) (.runtime .mintMismatch)
  let m ← World.account (w.mints mint)
  require (m.decimals = decimals) (.runtime .mintDecimalsMismatch)
  require (a.owner = authority) (.runtime .ownerMismatch)
  if src = dst then
    return w
  return (w.setTokenAccount src { a with amount := a.amount - amount }).setTokenAccount dst
    { b with amount := b.amount + amount }

/-- `mint_to`: `amount` new tokens in `dst` under the signature of the mint's authority. -/
def mintTo (w : World) (mint : Pubkey) (dst authority : Address) (amount : ℕ) : Except Error World := do
  let a ← World.account (w.tokenAccounts dst)
  require (a.mint = mint) (.runtime .mintMismatch)
  let m ← World.account (w.mints mint)
  let current ← okOr m.mintAuthority (.runtime .fixedSupply)
  require (current = authority) (.runtime .ownerMismatch)
  return w.setTokenAccount dst { a with amount := a.amount + amount }

/-- `set_authority` with `AuthorityType::MintTokens`. -/
def setMintAuthority (w : World) (mint : Pubkey) (authority : Address) (newAuthority : Option Address) :
    Except Error World := do
  let m ← World.account (w.mints mint)
  let current ← okOr m.mintAuthority (.runtime .fixedSupply)
  require (current = authority) (.runtime .ownerMismatch)
  return w.setMint mint { m with mintAuthority := newAuthority }

/-- A new, empty token account of `owner` for `mint` at an address not in use. -/
def createTokenAccount (w : World) (a : Address) (mint : Pubkey) (owner : Address) : Except Error World := do
  require (w.tokenAccounts a = none) (.runtime .accountAlreadyInUse)
  let _ ← World.account (w.mints mint)
  return w.setTokenAccount a ⟨mint, owner, 0⟩

/-- `init_if_needed` with `associated_token::mint` and `associated_token::authority`, less the rent
its payer lays out. -/
def initAtaIfNeeded (w : World) (owner mint : Pubkey) : Except Error World :=
  match w.tokenAccounts (.ata (.key owner) mint) with
  | none => createTokenAccount w (.ata (.key owner) mint) mint (.key owner)
  | some a => do
    require (a.mint = mint) (.runtime .constraintTokenMint)
    require (a.owner = .key owner) (.runtime .constraintTokenOwner)
    return w

/-! ## The system program -/

def systemTransfer (w : World) (src dst : Address) (amount : ℕ) : Except Error World := do
  require (amount ≤ w.lamports src) (.runtime .insufficientLamports)
  let w := w.setLamports src (w.lamports src - amount)
  return w.setLamports dst (w.lamports dst + amount)

/-- The lamports that keep an account without data alive (`Rent::minimum_balance(0)`). -/
def rentMinimum : ℕ := 890_880

end Presale
