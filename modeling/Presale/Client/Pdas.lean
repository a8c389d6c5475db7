/-
The addresses of the program's accounts: how the program derives them (the seeds in `contexts.rs`
and `admin.rs`, with `constants.rs`) and how the client does (`pdas.ts`, with `constants.ts`).

`find_program_address` hashes the seeds of a derivation, one after the other, with the program's
id. The hash is a parameter, and nothing is assumed of it, nor of the test whether a key is on the
curve.
-/
import Presale.Program.Admin
import Presale.Lib.Derive

namespace Presale

open Derive

/-! ## Bytes -/

abbrev Byte := Fin 256

/-- The 32 bytes of a key, the most significant first. -/
def Pubkey.bytes (k : Pubkey) : List Byte :=
  (List.ofFn (finFunctionFinEquiv.symm (Fin.cast (m := 256 ^ 32) (by norm_num) k))).reverse

theorem Pubkey.bytes_length (k : Pubkey) : k.bytes.length = 32 := by
  rw [Pubkey.bytes, List.length_reverse, List.length_ofFn]

theorem Pubkey.bytes_injective : Function.Injective Pubkey.bytes := by
  intro k k' h
  have hfun := List.ofFn_injective (List.reverse_injective h)
  exact Fin.cast_injective _ (finFunctionFinEquiv.symm.injective hfun)

/-- `b"..."` and `Buffer.from`, on ASCII. -/
def ascii (text : String) : List Byte := text.toList.map fun c => Fin.ofNat 256 c.toNat

/-- `new PublicKey` of a base-58 numeral. -/
def base58 (text : String) : Pubkey :=
  OfNat.ofNat (text.toList.foldl (fun n c =>
    n * 58 + "123456789ABCDEFGHJKLMNPQRSTUVWXYZabcdefghijkmnopqrstuvwxyz".toList.idxOf c) 0)

def programId : Pubkey := base58 "EQFvxjAWVQvy3JBr2wHgVWwjujpUzCt9X42qGaHTMEdn"
def tokenProgramId : Pubkey := base58 "TokenkegQfeZyiNwAJbNbGKPFXCWuBvf9Ss623VQ5DA"
def associatedTokenProgramId : Pubkey := base58 "ATokenGPvbdGVxr1b2hvZbsiqW5xWH25efTNsLJA8knL"
def clientMetadataProgramId : Pubkey := base58 "metaqbxxUerdq28cj1RbAWkYQm3ybzjb6a8bt518x1s"

theorem clientMetadataProgramId_eq : clientMetadataProgramId = metadataProgramId := by decide +kernel

/-! ## Seeds -/

inductive Seed where
  | config | tokenVault | solVault | mintAuthority | vesting | stakePool | stakeVault | rewardVault
  | userStake | vaultAuthority
  deriving DecidableEq

/-- `constants.rs` -/
def Seed.text : Seed → String
  | .config => "presale_config"
  | .tokenVault => "token_vault"
  | .solVault => "sol_vault"
  | .mintAuthority => "mint-authority"
  | .vesting => "user_vesting"
  | .stakePool => "stake_pool"
  | .stakeVault => "stake_vault"
  | .rewardVault => "reward_vault"
  | .userStake => "user_stake"
  | .vaultAuthority => "vault_authority"

/-- `constants.ts` -/
def Seed.clientText : Seed → String
  | .config => "presale_config"
  | .tokenVault => "token_vault"
  | .solVault => "sol_vault"
  | .mintAuthority => "mint-authority"
  | .vesting => "user_vesting"
  | .stakePool => "stake_pool"
  | .stakeVault => "stake_vault"
  | .rewardVault => "reward_vault"
  | .userStake => "user_stake"
  | .vaultAuthority => "vault_authority"

theorem seeds_prefixFree : PrefixFree fun s : Seed => ascii s.text := by
  intro i j h
  cases i <;> cases j <;> first | rfl | exact absurd h (by decide)

/-! ## Derived accounts -/

/-- What a derivation hashes: the seeds in a row, and the program it is for. -/
abbrev Message := List Byte × Pubkey

inductive Pda where
  | state (admin : Pubkey)
  | tokenVault (admin : Pubkey)
  | solVault (admin : Pubkey)
  | vesting (user : Pubkey)
  | stakePool (admin : Pubkey)
  | stakeVault (admin : Pubkey)
  | rewardVault (admin : Pubkey)
  | userStake (user : Pubkey)
  | vaultAuthority (admin : Pubkey)
  | mintAuthority
  | metadata (mint : Pubkey)
  | ata (owner mint : Pubkey)
  deriving DecidableEq

section
variable (find : Message → Pubkey)

def findProgramAddress (seeds : List (List Byte)) (program : Pubkey) : Pubkey := find (seeds.flatten, program)

/-! ### The program -/

/-- `state.key()` -/
def stateKey (admin : Pubkey) : Pubkey := findProgramAddress find [ascii Seed.config.text, admin.bytes] programId

def Pda.seeds : Pda → List (List Byte)
  | .state admin => [ascii Seed.config.text, admin.bytes]
  | .tokenVault admin => [ascii Seed.tokenVault.text, (stateKey find admin).bytes]
  | .solVault admin => [ascii Seed.solVault.text, (stateKey find admin).bytes]
  | .vesting user => [ascii Seed.vesting.text, user.bytes]
  | .stakePool admin => [ascii Seed.stakePool.text, (stateKey find admin).bytes]
  | .stakeVault admin => [ascii Seed.stakeVault.text, (stateKey find admin).bytes]
  | .rewardVault admin => [ascii Seed.rewardVault.text, (stateKey find admin).bytes]
  | .userStake user => [ascii Seed.userStake.text, user.bytes]
  | .vaultAuthority admin => [ascii Seed.vaultAuthority.text, (stateKey find admin).bytes]
  | .mintAuthority => [ascii Seed.mintAuthority.text]
  | .metadata mint => [ascii "metadata", metadataProgramId.bytes, mint.bytes]
  -- `associated_token::mint` and `associated_token::authority`
  | .ata owner mint => [owner.bytes, tokenProgramId.bytes, mint.bytes]

def Pda.program : Pda → Pubkey
  | .metadata _ => metadataProgramId
  | .ata _ _ => associatedTokenProgramId
  | _ => programId

/-- The address at which the program expects an account. -/
def Pda.address (a : Pda) : Pubkey := findProgramAddress find (a.seeds find) a.program

/-! ### The client -/

def deriveState (admin : Pubkey) : Pubkey :=
  findProgramAddress find [ascii Seed.config.clientText, admin.bytes] programId

def deriveTokenVault (state : Pubkey) : Pubkey :=
  findProgramAddress find [ascii Seed.tokenVault.clientText, state.bytes] programId

def deriveSolVault (state : Pubkey) : Pubkey :=
  findProgramAddress find [ascii Seed.solVault.clientText, state.bytes] programId

def deriveVesting (user : Pubkey) : Pubkey :=
  findProgramAddress find [ascii Seed.vesting.clientText, user.bytes] programId

def deriveStakePool (state : Pubkey) : Pubkey :=
  findProgramAddress find [ascii Seed.stakePool.clientText, state.bytes] programId

def deriveStakeVault (state : Pubkey) : Pubkey :=
  findProgramAddress find [ascii Seed.stakeVault.clientText, state.bytes] programId

def deriveRewardVault (state : Pubkey) : Pubkey :=
  findProgramAddress find [ascii Seed.rewardVault.clientText, state.bytes] programId

def deriveUserStake (user : Pubkey) : Pubkey :=
  findProgramAddress find [ascii Seed.userStake.clientText, user.bytes] programId

def deriveVaultAuthority (state : Pubkey) : Pubkey :=
  findProgramAddress find [ascii Seed.vaultAuthority.clientText, state.bytes] programId

/-- `getAssociatedTokenAddressSync` without `allowOwnerOffCurve` throws for an owner off the curve. -/
def deriveAta (isOnCurve : Pubkey → Bool) (owner mint : Pubkey) : Option Pubkey :=
  if isOnCurve owner then
    some (findProgramAddress find [owner.bytes, tokenProgramId.bytes, mint.bytes] associatedTokenProgramId)
  else none

def deriveMetadataPda (mint : Pubkey) : Pubkey :=
  findProgramAddress find [ascii "metadata", clientMetadataProgramId.bytes, mint.bytes] clientMetadataProgramId

/-- The address the client passes for an account, where it finds one. -/
def Pda.derive (isOnCurve : Pubkey → Bool) : Pda → Option Pubkey
  | .state admin => some (deriveState find admin)
  | .tokenVault admin => some (deriveTokenVault find (deriveState find admin))
  | .solVault admin => some (deriveSolVault find (deriveState find admin))
  | .vesting user => some (deriveVesting find user)
  | .stakePool admin => some (deriveStakePool find (deriveState find admin))
  | .stakeVault admin => some (deriveStakeVault find (deriveState find admin))
  | .rewardVault admin => some (deriveRewardVault find (deriveState find admin))
  | .userStake user => some (deriveUserStake find user)
  | .vaultAuthority admin => some (deriveVaultAuthority find (deriveState find admin))
  | .mintAuthority => some (findProgramAddress find [ascii Seed.mintAuthority.clientText] programId)
  | .metadata mint => some (deriveMetadataPda find mint)
  | .ata owner mint => deriveAta find isOnCurve owner mint

/-- An associated token account of an owner off the curve. -/
def Pda.OffCurve (isOnCurve : Pubkey → Bool) : Pda → Prop
  | .ata owner _ => isOnCurve owner = false
  | _ => False

/-! ## What is hashed -/

def Pda.message (a : Pda) : Message := ((a.seeds find).flatten, a.program)

/-- The presale an account is one of, when its seeds name one. -/
def Pda.presale : Pda → Option Pubkey
  | .tokenVault admin | .solVault admin | .stakePool admin | .stakeVault admin | .rewardVault admin
  | .vaultAuthority admin => some admin
  | _ => none

/-- All that is hashed on the way to an address. -/
def Pda.hashed (a : Pda) : List Message := a.message find :: a.presale.toList.map fun admin => (Pda.state admin).message find

end

/-- The program's own seed that an account stands under. -/
def Pda.seed : Pda → Option Seed
  | .state _ => some .config
  | .tokenVault _ => some .tokenVault
  | .solVault _ => some .solVault
  | .vesting _ => some .vesting
  | .stakePool _ => some .stakePool
  | .stakeVault _ => some .stakeVault
  | .rewardVault _ => some .rewardVault
  | .userStake _ => some .userStake
  | .vaultAuthority _ => some .vaultAuthority
  | .mintAuthority => some .mintAuthority
  | .metadata _ => none
  | .ata _ _ => none

section
variable {find : Message → Pubkey} {a b : Pda} {A B : Pubkey}

/-- The client finds the address the program expects, or none. -/
theorem Pda.derive_eq {isOnCurve : Pubkey → Bool} {k : Pubkey} :
    ∀ a : Pda, a.derive find isOnCurve = some k ↔ a.address find = k ∧ ¬ a.OffCurve isOnCurve
  | .metadata mint => by
    rw [Pda.derive, deriveMetadataPda, clientMetadataProgramId_eq, Option.some.injEq]
    exact (and_iff_left not_false).symm
  | .ata owner mint => by
    unfold Pda.derive deriveAta OffCurve
    rw [Option.ite_none_right_eq_some, Option.some.injEq, Bool.not_eq_false]
    exact and_comm
  | .state _ | .tokenVault _ | .solVault _ | .vesting _ | .stakePool _ | .stakeVault _ | .rewardVault _ | .userStake _
  | .vaultAuthority _ | .mintAuthority => by
    rw [Pda.derive, Option.some.injEq]
    exact (and_iff_left not_false).symm

theorem Pda.message_mem (a : Pda) : a.message find ∈ a.hashed find := List.mem_cons_self

theorem Pda.presale_mem (h : a.presale = some A) : (Pda.state A).message find ∈ a.hashed find := by
  rw [Pda.hashed, h]
  exact List.mem_cons_of_mem _ (List.mem_singleton_self _)

theorem stateMessage_inj (h : (Pda.state A).message find = (Pda.state B).message find) : A = B := by
  have hbytes : ascii Seed.config.text ++ (A.bytes ++ []) = ascii Seed.config.text ++ (B.bytes ++ []) := congrArg Prod.fst h
  simp only [List.append_nil] at hbytes
  exact Pubkey.bytes_injective (List.append_cancel_left hbytes)

/-- Accounts named by the address of a presale. -/
theorem Pda.presale_eq (hA : a.presale = some A) (hB : b.presale = some B)
    (h : (stateKey find A).bytes = (stateKey find B).bytes) : A = B ∨ Collide find (a.hashed find) (b.hashed find) := by
  have hkey : find ((Pda.state A).message find) = find ((Pda.state B).message find) := Pubkey.bytes_injective h
  exact (eq_or_collide (presale_mem hA) (presale_mem hB) hkey).imp_left stateMessage_inj

/-- What follows the seed of one of the program's own accounts. -/
def Pda.rest (find : Message → Pubkey) : Pda → List Byte
  | .state k | .vesting k | .userStake k => k.bytes
  | .tokenVault admin | .solVault admin | .stakePool admin | .stakeVault admin | .rewardVault admin
  | .vaultAuthority admin => (stateKey find admin).bytes
  | .mintAuthority | .metadata _ | .ata _ _ => []

theorem Pda.message_own {s : Seed} (h : a.seed = some s) : a.message find = (ascii s.text ++ a.rest find, programId) := by
  refine Prod.ext ?_ ?_
  · cases a <;> cases h
    case mintAuthority.refl => rfl
    all_goals exact congrArg (ascii _ ++ ·) (List.append_nil _)
  · cases a <;> cases h <;> rfl

/-- Under one seed, what follows it tells the account. -/
theorem Pda.rest_eq {s : Seed} (ha : a.seed = some s) (hb : b.seed = some s) (h : a.rest find = b.rest find) :
    a = b ∨ Collide find (a.hashed find) (b.hashed find) := by
  cases a <;> cases ha <;> cases b <;> cases hb
  case state.refl.state.refl | vesting.refl.vesting.refl | userStake.refl.userStake.refl =>
    exact .inl (congrArg _ (Pubkey.bytes_injective h))
  case mintAuthority.refl.mintAuthority.refl => exact .inl rfl
  all_goals exact (presale_eq rfl rfl h).imp_left (congrArg _)

theorem Pda.program_own {s : Seed} (h : a.seed = some s) : a.program = programId := by
  cases a <;> cases h <;> rfl

theorem Pda.program_other (h : a.seed = none) : a.program ≠ programId := by
  cases a with
  | metadata => exact (by decide +kernel : metadataProgramId ≠ programId)
  | ata => exact (by decide +kernel : associatedTokenProgramId ≠ programId)
  | _ => cases h

/-- Other programs' accounts: what is hashed tells the account. -/
theorem Pda.message_other (ha : a.seed = none) (hb : b.seed = none) (h : a.message find = b.message find) : a = b := by
  have hprogram : a.program = b.program := congrArg Prod.snd h
  have hne : metadataProgramId ≠ associatedTokenProgramId := by decide +kernel
  have hbytes : (a.seeds find).flatten = (b.seeds find).flatten := congrArg Prod.fst h
  cases a <;> cases ha <;> cases b <;> cases hb
  case metadata.refl.metadata.refl mint mint' =>
    have hmint : mint.bytes ++ [] = mint'.bytes ++ [] :=
      List.append_cancel_left (List.append_cancel_left hbytes)
    simp only [List.append_nil] at hmint
    rw [Pubkey.bytes_injective hmint]
  case metadata.refl.ata.refl => exact absurd hprogram hne
  case ata.refl.metadata.refl => exact absurd hprogram.symm hne
  case ata.refl.ata.refl owner mint owner' mint' =>
    have hlength : owner.bytes.length = owner'.bytes.length := by rw [Pubkey.bytes_length, Pubkey.bytes_length]
    obtain ⟨howner, hrest⟩ := List.append_inj hbytes hlength
    have hmint : mint.bytes ++ [] = mint'.bytes ++ [] := List.append_cancel_left hrest
    simp only [List.append_nil] at hmint
    rw [Pubkey.bytes_injective howner, Pubkey.bytes_injective hmint]

theorem Pda.message_eq (h : a.message find = b.message find) : a = b ∨ Collide find (a.hashed find) (b.hashed find) := by
  have hprogram : a.program = b.program := congrArg Prod.snd h
  cases ha : a.seed with
  | some s =>
    cases hb : b.seed with
    | some t =>
      rw [message_own ha, message_own hb] at h
      obtain ⟨rfl, hrest⟩ := seeds_prefixFree.append_inj (congrArg Prod.fst h)
      exact rest_eq ha hb hrest
    | none => exact absurd (hprogram.symm.trans (program_own ha)) (program_other hb)
  | none =>
    cases hb : b.seed with
    | some t => exact absurd (hprogram.trans (program_own hb)) (program_other ha)
    | none => exact .inl (message_other ha hb h)

/-- Two accounts at one address are the same account, or the hash collides on what was hashed for them. -/
theorem Pda.address_eq (h : a.address find = b.address find) : a = b ∨ Collide find (a.hashed find) (b.hashed find) := by
  rcases eq_or_collide (message_mem a) (message_mem b) h with he | hc
  · exact message_eq he
  · exact .inr hc

/-! ## The addresses of the model -/

/-- The account a derived address stands for. -/
def Address.pda : Address → Option Pda
  | .key _ => none
  | .tokenVault admin => some (.tokenVault admin)
  | .solVault admin => some (.solVault admin)
  | .vaultAuthority admin => some (.vaultAuthority admin)
  | .stakeVault admin => some (.stakeVault admin)
  | .rewardVault admin => some (.rewardVault admin)
  | .mintAuthority => some .mintAuthority
  | .metadata mint => some (.metadata mint)
  | .ata (.key owner) mint => some (.ata owner mint)
  | .ata _ _ => none

theorem Address.pda_injective : ∀ {x y : Address}, x.pda = some a → y.pda = some a → x = y := by
  intro x y hx hy
  unfold pda at hx hy
  split at hx <;> cases hx <;> split at hy <;> cases hy <;> rfl

/-- Different derived addresses of the model are different keys, unless the hash collides. -/
theorem addresses_apart {x y : Address} (hx : x.pda = some a) (hy : y.pda = some b) :
    (a.address find = b.address find ↔ x = y) ∨ Collide find (a.hashed find) (b.hashed find) := by
  by_cases hc : Collide find (a.hashed find) (b.hashed find)
  · exact .inr hc
  · refine .inl ⟨fun h => ?_, ?_⟩
    · obtain rfl := (Pda.address_eq h).resolve_right hc
      exact Address.pda_injective hx hy
    · rintro rfl
      rw [hx] at hy
      cases hy
      rfl

end

/-- The client passes for an account the address at which the program expects it, but for the associated
token account of an owner off the curve, for which it passes none; and it passes the address of no other
account, unless the hash collides on what is hashed for the two of them. Accounts at different addresses of
the model are then at different keys. -/
theorem derive_eq_address_iff (find : Message → Pubkey) (isOnCurve : Pubkey → Bool) (a b : Pda) :
    (¬ a.OffCurve isOnCurve → a.derive find isOnCurve = some (a.address find)) ∧
    (a.OffCurve isOnCurve → a.derive find isOnCurve = none) ∧
    ((a.derive find isOnCurve = some (b.address find) ↔ a = b ∧ ¬ a.OffCurve isOnCurve) ∨
      Collide find (a.hashed find) (b.hashed find)) ∧
    ∀ x y : Address, x.pda = some a → y.pda = some b →
      (a.address find = b.address find ↔ x = y) ∨ Collide find (a.hashed find) (b.hashed find) := by
  refine ⟨fun hon => a.derive_eq.2 ⟨rfl, hon⟩, fun hoff => ?_, ?_, fun x y hx hy => addresses_apart hx hy⟩
  · rw [Option.eq_none_iff_forall_ne_some]
    intro k hk
    exact (a.derive_eq.1 hk).2 hoff
  · rw [Pda.derive_eq]
    by_cases hc : Collide find (a.hashed find) (b.hashed find)
    · exact .inr hc
    · refine .inl (and_congr_left fun _ => ⟨fun h => (Pda.address_eq h).resolve_right hc, ?_⟩)
      rintro rfl
      rfl

end Presale
