/-
The tokens that `create_token` makes: it gives the mint's authority up once the first supply is out,
so nobody mints the token again, whatever is called in whatever order.
-/
import Presale.Effects.Tokens
import Presale.Program.Script
import Presale.Steps.Frame

namespace Presale

open Checked World Tokens

/-! ## The supply -/

/-- The tokens of the mint `k` in all token accounts. -/
noncomputable def World.supply (w : World) (k : Pubkey) : ℕ := Tokens.supply k w.holdings

/-- What a step mints of the mint `k`. -/
def mintedIn (k : Pubkey) (x : Transition) : ℕ := x.label.footprint (fun c => c.minted k) 0

/-- What the token program lets others do: tokens move and are burnt, and none appear of a mint that
nobody may mint. -/
structure OnlyAuthorityMints (w w' : World) : Prop where
  inUse : InUse w.holdings → InUse w'.holdings
  supply : ∀ k m, w.mints k = some m → m.mintAuthority = none → InUse w.holdings → w'.supply k ≤ w.supply k

/-! ## Scripts mint nothing on the side -/

theorem onlyAuthorityMints_congr {w w' : World} (h : w'.tokenAccounts = w.tokenAccounts) : OnlyAuthorityMints w w' := by
  have hsame := holdings_congr h
  refine ⟨fun hf => hsame ▸ hf, fun k _ _ _ _ => ?_⟩
  unfold World.supply
  rw [hsame]

theorem steps_onlyAuthorityMints {w : World} {acts : List Act} : ∀ x ∈ steps w acts, x.label = .outside →
    OnlyAuthorityMints x.before x.after := by
  intro x hx hlabel
  obtain ⟨t, ht⟩ := steps_outside x hx hlabel
  exact onlyAuthorityMints_congr (by rw [ht])

/-- A world before the program is used, whose wallets are on a list. -/
theorem blank_inUse {mints : Pubkey → Option Mint} {wallets : Address → Option TokenAccount} {lamports : Address → ℕ}
    (l : List Address) (hout : ∀ a, a ∉ l → wallets a = none) : InUse (blank mints wallets lamports).holdings := by
  refine (List.finite_toSet l).subset fun a ha => ?_
  by_contra hnot
  have hnone := hout a hnot
  apply ha
  cases a with
  | key k => simp [World.holdings, blank, hnone]
  | ata owner mint => simp [World.holdings, blank, hnone]
  | _ => rfl

theorem sampleWorld_inUse : InUse sampleWorld.holdings := by
  refine blank_inUse (([1, 2, 3, 4, 5] : List Pubkey).map fun k => .ata (.key k) 100) fun a ha => ?_
  cases a with
  | ata owner mint =>
    cases owner with
    | key k =>
      have hnot : ¬ (mint = 100 ∧ k ∈ ([1, 2, 3, 4, 5] : List Pubkey)) := by
        rintro ⟨rfl, hk⟩
        exact ha (List.mem_map.2 ⟨k, hk, rfl⟩)
      exact if_neg hnot
    | _ => rfl
  | _ => rfl

/-! ## Mints -/

section
variable {k : Pubkey} {w w' : World} {tr : List Transition}

/-- The new mint is nobody's to mint from the start. -/
theorem createToken_mint {ctx : CreateToken} {decimals initialSupply : ℕ} {name symbol uri : String}
    (h : createToken ctx decimals initialSupply name symbol uri w = .ok w') :
    w.mints ctx.mint = none ∧ w'.mints ctx.mint = some ⟨none, decimals⟩ := by
  unfold createToken at h
  simp only [bind_ok_iff, require_eq_ok, pure_ok_iff] at h
  obtain ⟨_, -, _, -, _, -, _, -, _, -, _, -, _, ⟨hnone, -, -⟩, w₁, hata, w₂, hsupply, w₃, hrevoke, rfl⟩ := h
  obtain ⟨-, hw₁⟩ := createAdminAta_ok hata
  obtain ⟨-, -, hw₂⟩ := mintInitialSupply_ok hsupply
  obtain ⟨m, hm, -, rfl⟩ := setMintAuthority_ok hrevoke
  have hmade : w₂.mints ctx.mint = some ⟨some .mintAuthority, decimals⟩ := by
    rw [hw₂, hw₁]
    exact Function.update_self ..
  obtain rfl := Option.some.inj (hm.symm.trans hmade)
  exact ⟨hnone, Function.update_self ..⟩

/-- A mint stays as it was made. -/
theorem exec_mints {c : Call} {m : Mint} (h : exec c w = .ok w') (hm : w.mints k = some m) : w'.mints k = some m := by
  cases c with
  | createToken => exact (createToken_ok h).mints k m hm
  | initializePresale => rw [(initializePresale_ok h).mints]; exact hm
  | fundPresaleVault =>
    obtain ⟨_, hf⟩ := fundPresaleVault_ok h
    rw [hf.mints]; exact hm
  | buyTokens =>
    obtain ⟨_, _, _, _, _, hb⟩ := buyTokens_ok h
    rw [hb.mints]; exact hm
  | claimVested =>
    obtain ⟨_, _, _, hc⟩ := claimVested_ok h
    rw [hc.mints]; exact hm
  | claimRefund =>
    obtain ⟨_, _, hr⟩ := claimRefund_ok h
    rw [hr.mints]; exact hm
  | togglePause =>
    obtain ⟨_, hf, -⟩ := togglePause_ok h
    rw [hf.mints]; exact hm
  | finalizePresale =>
    obtain ⟨_, hf, -⟩ := finalizePresale_ok h
    rw [hf.mints]; exact hm
  | withdrawFunds =>
    obtain ⟨_, hw⟩ := withdrawFunds_ok h
    rw [hw.mints]; exact hm
  | withdrawUnsold =>
    obtain ⟨_, _, hw⟩ := withdrawUnsold_ok h
    rw [hw.mints]; exact hm
  | initializeStaking =>
    obtain ⟨_, hp⟩ := initializeStaking_ok h
    rw [hp.kept.mints]; exact hm
  | fundRewardVault =>
    obtain ⟨_, _, hf⟩ := fundRewardVault_ok h
    rw [hf.kept.mints]; exact hm
  | stake =>
    obtain ⟨_, _, hs⟩ := stake_ok h
    rw [hs.kept.mints]; exact hm
  | unstake =>
    obtain ⟨_, _, _, _, hu⟩ := unstake_ok h
    rw [hu.kept.mints]; exact hm
  | claimRewards =>
    obtain ⟨_, _, _, _, hc⟩ := claimRewards_ok h
    rw [hc.kept.mints]; exact hm
  | setAdminActionsLock =>
    obtain ⟨_, hf, -⟩ := setAdminActionsLock_ok h
    rw [hf.mints]; exact hm

/-- No call mints a mint that is there already. -/
theorem exec_minted {c : Call} {m : Mint} (h : exec c w = .ok w') (hm : w.mints k = some m) : c.minted k = 0 := by
  cases c with
  | createToken ctx =>
    obtain ⟨hnone, -⟩ := createToken_mint h
    have hne : k ≠ ctx.mint := by
      rintro rfl
      rw [hm] at hnone
      cases hnone
    exact Function.update_of_ne hne _ _
  | _ => rfl

theorem Step.mints {l : Label} {m : Mint} (h : Step w l w') (hm : w.mints k = some m) :
    ∃ m', w'.mints k = some m' ∧ m.Later m' := by
  cases h with
  | ok _ h => exact ⟨m, exec_mints h hm, .refl m⟩
  | failed => exact ⟨m, hm, .refl m⟩
  | outside ho => exact ho.mints k m hm

/-- Once there, a mint stays, and no step mints it. -/
theorem Run.mints {m : Mint} (h : Run w tr w') (hm : w.mints k = some m) :
    (∃ m', w'.mints k = some m' ∧ m.Later m') ∧ ∀ x ∈ tr, mintedIn k x = 0 := by
  refine Runs.Run.induct (P := fun _ => True)
    (J := fun tr w' => (∃ m', w'.mints k = some m' ∧ m.Later m') ∧ ∀ x ∈ tr, mintedIn k x = 0)
    ⟨⟨m, hm, .refl m⟩, fun x hx => absurd hx List.not_mem_nil⟩ ?_ h fun _ _ => trivial
  rintro tr s l t - ⟨⟨m₁, hs, hlater⟩, hzero⟩ hstep -
  obtain ⟨m₂, ht, hlater'⟩ := hstep.mints hs
  refine ⟨⟨m₂, ht, hlater.trans hlater'⟩, fun x hx => ?_⟩
  rcases List.mem_append.1 hx with hx | hx
  · exact hzero x hx
  · rw [List.mem_singleton.1 hx]
    cases hstep with
    | ok _ hok => exact exec_minted hok hs
    | failed => rfl
    | outside => rfl

/-- A mint that nobody may mint stays just as it is. -/
theorem Mint.Later.fixed {m : Mint} {decimals : ℕ} (h : Mint.Later ⟨none, decimals⟩ m) : m = ⟨none, decimals⟩ := by
  obtain ⟨mintAuthority, _⟩ := m
  obtain rfl := h.decimals
  obtain rfl := h.revoked rfl
  rfl

/-! ## No authority, no minting -/

theorem mintTo_fixed {dst authority : Address} {amount decimals : ℕ} (hm : w.mints k = some ⟨none, decimals⟩) :
    mintTo w k dst authority amount ≠ .ok w' := by
  intro h
  obtain ⟨_, m, -, -, hm', hauthority, -⟩ := mintTo_ok h
  obtain rfl := Option.some.inj (hm.symm.trans hm')
  cases hauthority

theorem setMintAuthority_fixed {authority : Address} {newAuthority : Option Address} {decimals : ℕ}
    (hm : w.mints k = some ⟨none, decimals⟩) : setMintAuthority w k authority newAuthority ≠ .ok w' := by
  intro h
  obtain ⟨m, hm', hauthority, -⟩ := setMintAuthority_ok h
  obtain rfl := Option.some.inj (hm.symm.trans hm')
  cases hauthority

theorem exec_supply {c : Call} (hf : InUse w.holdings) (h : exec c w = .ok w') :
    InUse w'.holdings ∧ w'.supply k = w.supply k + c.minted k :=
  ⟨((exec_ops h).supply hf).1, ((exec_ops h).supply hf).2 k⟩

/-- The supply of a mint that nobody may mint only falls. -/
theorem Run.supply_le {decimals : ℕ} (h : Run w tr w') (hm : w.mints k = some ⟨none, decimals⟩) (hf : InUse w.holdings)
    (hout : ∀ x ∈ tr, x.label = .outside → OnlyAuthorityMints x.before x.after) : w'.supply k ≤ w.supply k := by
  refine (Runs.Run.induct (P := fun x => x.label = .outside → OnlyAuthorityMints x.before x.after)
    (J := fun _ w' => w'.mints k = some ⟨none, decimals⟩ ∧ InUse w'.holdings ∧ w'.supply k ≤ w.supply k)
    ⟨hm, hf, le_rfl⟩ ?_ h hout).2.2
  rintro tr s l t - ⟨hs, hfs, hle⟩ hstep hkeeps
  obtain ⟨m, ht, hlater⟩ := hstep.mints hs
  obtain rfl := hlater.fixed
  refine ⟨ht, ?_⟩
  cases hstep with
  | ok _ hok =>
    obtain ⟨hft, hsupply⟩ := exec_supply (k := k) hfs hok
    rw [exec_minted hok hs] at hsupply
    exact ⟨hft, by omega⟩
  | failed => exact ⟨hfs, hle⟩
  | outside _ => exact ⟨(hkeeps rfl).inUse hfs, ((hkeeps rfl).supply k _ hs rfl hfs).trans hle⟩

/-! ## A fixed supply -/

/-- The whole supply of a new mint is in its creator's associated token account. -/
theorem createToken_holding {ctx : CreateToken} {decimals initialSupply : ℕ} {name symbol uri : String}
    (h : createToken ctx decimals initialSupply name symbol uri w = .ok w') (hpos : 0 < initialSupply)
    (hnew : ∀ a t, w.tokenAccounts a = some t → t.mint ≠ ctx.mint) :
    w'.tokenAccounts (.ata (.key ctx.admin) ctx.mint) = some ⟨ctx.mint, .key ctx.admin, initialSupply⟩ := by
  unfold createToken at h
  simp only [bind_ok_iff, require_eq_ok, pure_ok_iff] at h
  obtain ⟨_, -, _, -, _, -, _, -, _, -, _, -, _, -, w₁, hata, w₂, hsupply, w₃, hrevoke, rfl⟩ := h
  obtain ⟨_, -, -, rfl⟩ := setMintAuthority_ok hrevoke
  unfold mintInitialSupply at hsupply
  rw [if_pos hpos] at hsupply
  obtain ⟨a, _, ha, hmint, -, -, rfl⟩ := mintTo_ok hsupply
  unfold createAdminAta at hata
  split at hata
  · simp only [bind_ok_iff, require_eq_ok] at hata
    obtain ⟨_, haddr, hata⟩ := hata
    obtain ⟨-, rfl⟩ := createTokenAccount_ok hata
    rw [setTokenAccount_tokenAccounts, Function.update_self] at ha
    cases ha
    rw [← haddr]
    simp
  · cases hata
    -- an account that was there before is of another mint
    exact absurd hmint (hnew _ _ ha)

/-- The whole supply of a new mint is what it was made with. -/
theorem createToken_supply {ctx : CreateToken} {decimals initialSupply : ℕ} {name symbol uri : String}
    (h : exec (.createToken ctx decimals initialSupply name symbol uri) w = .ok w') (hf : InUse w.holdings)
    (hnew : ∀ a t, w.tokenAccounts a = some t → t.mint ≠ ctx.mint) :
    InUse w'.holdings ∧ w'.supply ctx.mint = initialSupply := by
  have hnone : w.supply ctx.mint = 0 := by
    refine finsum_eq_zero_of_forall_eq_zero fun a => ?_
    cases ha : w.tokenAccounts a with
    | none => simp [World.holdings, ha]
    | some t =>
      have hother : t.holding.mint ≠ ctx.mint := hnew a t ha
      simp [World.holdings, ha, hother]
  have hminted : (Call.createToken ctx decimals initialSupply name symbol uri).minted ctx.mint = initialSupply :=
    Function.update_self _ _ _
  obtain ⟨hf', hsupply⟩ := exec_supply (k := ctx.mint) hf h
  exact ⟨hf', by rw [hsupply, hnone, hminted, Nat.zero_add]⟩

/-- A token made by `create_token` keeps its decimals and is nobody's to mint ever after: whatever
calls follow, and whatever others do, no call mints it, and neither minting it nor taking its authority
back can succeed. Its whole supply is at first in its creator's associated token account, and as long as
others mint under a mint's authority only, never exceeds `initial_supply`. -/
theorem createToken_fixed_supply {ctx : CreateToken} {decimals initialSupply : ℕ} {name symbol uri : String}
    {w₁ : World} (hcreate : exec (.createToken ctx decimals initialSupply name symbol uri) w = .ok w₁)
    (hf : InUse w.holdings) (hnew : ∀ a t, w.tokenAccounts a = some t → t.mint ≠ ctx.mint) (h : Run w₁ tr w') :
    (0 < initialSupply →
      w₁.tokenAccounts (.ata (.key ctx.admin) ctx.mint) = some ⟨ctx.mint, .key ctx.admin, initialSupply⟩) ∧
    w₁.supply ctx.mint = initialSupply ∧
    w'.mints ctx.mint = some ⟨none, decimals⟩ ∧
    (∀ dst authority amount w'', mintTo w' ctx.mint dst authority amount ≠ .ok w'') ∧
    (∀ authority newAuthority w'', setMintAuthority w' ctx.mint authority newAuthority ≠ .ok w'') ∧
    (∀ x ∈ tr, mintedIn ctx.mint x = 0) ∧
    ((∀ x ∈ tr, x.label = .outside → OnlyAuthorityMints x.before x.after) → w'.supply ctx.mint ≤ initialSupply) := by
  obtain ⟨-, hmint⟩ := createToken_mint hcreate
  obtain ⟨⟨m, hstays, hlater⟩, hzero⟩ := h.mints hmint
  obtain rfl := hlater.fixed
  obtain ⟨hf₁, hsupply₁⟩ := createToken_supply hcreate hf hnew
  refine ⟨fun hpos => createToken_holding hcreate hpos hnew, hsupply₁, hstays, ?_, ?_, hzero, fun hout => ?_⟩
  · intro dst authority amount w''
    exact mintTo_fixed hstays
  · intro authority newAuthority w''
    exact setMintAuthority_fixed hstays
  · calc w'.supply ctx.mint ≤ w₁.supply ctx.mint := h.supply_le hmint hf₁ hout
      _ = initialSupply := hsupply₁

end

/-- A new token of wallet `1`. -/
def sampleToken : CreateToken := ⟨200, .mintAuthority, .ata (.key 1) 200, 1, .metadata 200, metadataProgramId⟩

def sampleCreate : Call := .createToken sampleToken 6 5000 "Sample" "SMP" "sample.json"

theorem sampleToken_new : ∀ a t, sampleWorld.tokenAccounts a = some t → t.mint ≠ sampleToken.mint := by
  intro a t ht
  cases a with
  | ata owner mint =>
    cases owner with
    | key k =>
      simp only [sampleWorld, blank, Option.ite_none_right_eq_some] at ht
      obtain ⟨-, ht⟩ := ht
      cases ht
      show (100 : Pubkey) ≠ 200
      decide
    | _ => cases ht
  | _ => cases ht

theorem createToken_fixed_supply_sample :
    (play sampleWorld [.call sampleCreate]).tokenAccounts (.ata (.key 1) 200) = some ⟨200, .key 1, 5000⟩ ∧
    (play (play sampleWorld [.call sampleCreate]) sampleFinalized).mints 200 = some ⟨none, 6⟩ ∧
    (∀ w, mintTo (play (play sampleWorld [.call sampleCreate]) sampleFinalized) 200 (.ata (.key 1) 200) .mintAuthority 1
      ≠ .ok w) ∧
    (play (play sampleWorld [.call sampleCreate]) sampleFinalized).supply 200 ≤ 5000 := by
  have hcreate : exec sampleCreate sampleWorld = .ok (play sampleWorld [.call sampleCreate]) :=
    exec_of_play (by decide +kernel)
  have hrun : Run (play sampleWorld [.call sampleCreate]) (steps (play sampleWorld [.call sampleCreate]) sampleFinalized)
      (play (play sampleWorld [.call sampleCreate]) sampleFinalized) := play_run (by decide +kernel)
  obtain ⟨hholding, -, hmint, hminting, -, -, hsupply⟩ :=
    createToken_fixed_supply hcreate sampleWorld_inUse sampleToken_new hrun
  refine ⟨hholding (by decide), hmint, ?_, hsupply steps_onlyAuthorityMints⟩
  intro w
  exact hminting _ _ _ w

end Presale
