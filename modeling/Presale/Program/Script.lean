/-
Scripts: lists of calls and waits played from a world, each of them a run of the machine.
-/
import Presale.Program.Machine

namespace Presale

/-! ## Playing -/

/-- A call to make, or a later moment to wait for. -/
inductive Act where
  | call (c : Call)
  | wait (t : ℤ)

/-- The step an act makes, and where it leads. -/
def Act.perform (w : World) : Act → Label × World
  | .call c =>
    match exec c w with
    | .ok w' => (.ok c, w')
    | .error e => (.failed c e, w)
  | .wait t => (.outside, { w with clock := t })

def Act.Playable (w : World) : Act → Prop
  | .call c => c.InRange
  | .wait t => w.clock ≤ t ∧ IsI64 t

/-- The world a script of acts ends in. -/
def play (w : World) : List Act → World
  | [] => w
  | a :: acts => play (a.perform w).2 acts

/-- The steps a script makes. -/
def steps (w : World) : List Act → List Transition
  | [] => []
  | a :: acts => ⟨w, (a.perform w).1, (a.perform w).2⟩ :: steps (a.perform w).2 acts

def Playable (w : World) : List Act → Prop
  | [] => True
  | a :: acts => a.Playable w ∧ Playable (a.perform w).2 acts

/-! ## Deciding what can be played -/

instance (args : InitializePresaleArgs) : Decidable args.InRange :=
  decidable_of_iff (IsU64 args.softCap ∧ IsU64 args.hardCap ∧ IsU64 args.maxContribution ∧ IsU64 args.tokensForSale ∧
    IsI64 args.startTime ∧ IsI64 args.endTime ∧ IsI64 args.vestingDuration ∧ IsI64 args.vestingCliff ∧
    IsU64 args.minClaimAmount ∧ args.referralBonusBps < 2 ^ 16 ∧ ∀ stage ∈ args.stages, IsU64 stage.pricePerToken ∧
      IsU64 stage.tokensAvailable ∧ IsU64 stage.tokensSoldInStage)
    ⟨fun ⟨h1, h2, h3, h4, h5, h6, h7, h8, h9, h10, h11⟩ => ⟨h1, h2, h3, h4, h5, h6, h7, h8, h9, h10, h11⟩,
      fun ⟨h1, h2, h3, h4, h5, h6, h7, h8, h9, h10, h11⟩ => ⟨h1, h2, h3, h4, h5, h6, h7, h8, h9, h10, h11⟩⟩

instance : (c : Call) → Decidable c.InRange
  | .createToken .. => inferInstanceAs (Decidable (_ ∧ _))
  | .initializePresale _ args => inferInstanceAs (Decidable args.InRange)
  | .fundPresaleVault _ amount => inferInstanceAs (Decidable (IsU64 amount))
  | .buyTokens _ solAmount _ => inferInstanceAs (Decidable (IsU64 solAmount))
  | .claimVested _ => .isTrue trivial
  | .claimRefund _ => .isTrue trivial
  | .togglePause _ _ => .isTrue trivial
  | .finalizePresale _ => .isTrue trivial
  | .withdrawFunds _ => .isTrue trivial
  | .withdrawUnsold _ => .isTrue trivial
  | .initializeStaking _ rewardRatePerSecond => inferInstanceAs (Decidable (IsU64 rewardRatePerSecond))
  | .fundRewardVault _ amount => inferInstanceAs (Decidable (IsU64 amount))
  | .stake _ amount => inferInstanceAs (Decidable (IsU64 amount))
  | .unstake _ amount => inferInstanceAs (Decidable (IsU64 amount))
  | .claimRewards _ => .isTrue trivial
  | .setAdminActionsLock _ unlockTimestamp => inferInstanceAs (Decidable (IsI64 unlockTimestamp))

instance (w : World) : (a : Act) → Decidable (a.Playable w)
  | .call c => inferInstanceAs (Decidable c.InRange)
  | .wait _ => inferInstanceAs (Decidable (_ ∧ _))

instance decidablePlayable : (w : World) → (acts : List Act) → Decidable (Playable w acts)
  | _, [] => .isTrue trivial
  | w, a :: acts =>
    have := decidablePlayable (a.perform w).2 acts
    inferInstanceAs (Decidable (a.Playable w ∧ Playable (a.perform w).2 acts))

/-! ## Scripts are runs -/

theorem Act.perform_step {w : World} : ∀ {a : Act}, a.Playable w → Step w (a.perform w).1 (a.perform w).2
  | .call c, h => by
    simp only [perform]
    rcases hc : exec c w with e | w'
    · exact .failed h hc
    · exact .ok h hc
  | .wait t, h =>
    .outside ⟨h.1, h.2, rfl, rfl, rfl, rfl, rfl, fun _ m hm => ⟨m, hm, .refl m⟩, fun _ t ht _ => ⟨t.amount, le_rfl, ht⟩,
      fun _ _ hn => hn, fun _ => le_rfl⟩

/-- A script that can be played is a run. -/
theorem play_run : ∀ {w : World} {acts : List Act}, Playable w acts → Run w (steps w acts) (play w acts)
  | _, [], _ => .nil
  | _, _ :: _, h => (Runs.Run.single (Act.perform_step h.1)).append (play_run h.2)

/-- The error a call fails with. -/
def failure (w : World) (c : Call) : Option Error :=
  match exec c w with
  | .ok _ => none
  | .error e => some e

theorem exec_of_failure {w : World} {c : Call} {e : Error} (h : failure w c = some e) : exec c w = .error e := by
  unfold failure at h
  rcases hc : exec c w with e' | w'
  · rw [hc] at h; cases h; rfl
  · rw [hc] at h; cases h

/-- A call that does not fail leads where its script does. -/
theorem exec_of_play {w : World} {c : Call} (h : failure w c = none) : exec c w = .ok (play w [.call c]) := by
  unfold failure at h
  rcases hc : exec c w with e | w'
  · rw [hc] at h; cases h
  · simp [play, Act.perform, hc]

/-! ## Scripts in parts -/

theorem steps_append : ∀ (w : World) (acts acts' : List Act),
    steps w (acts ++ acts') = steps w acts ++ steps (play w acts) acts'
  | _, [], _ => rfl
  | w, a :: acts, acts' => congrArg (List.cons _) (steps_append (a.perform w).2 acts acts')

/-- A call that does not fail is one step. -/
theorem steps_call {w : World} {c : Call} (h : failure w c = none) :
    steps w [.call c] = [⟨w, .ok c, play w [.call c]⟩] := by
  have hc := exec_of_play h
  have hperform : Act.perform w (.call c) = (.ok c, play w [.call c]) := by
    show (match exec c w with | .ok w' => (Label.ok c, w') | .error e => (.failed c e, w)) = _
    rw [hc]
  show [(⟨w, (Act.perform w (.call c)).1, (Act.perform w (.call c)).2⟩ : Transition)] = _
  rw [hperform]

/-- A wait moves nothing but the clock. -/
theorem steps_outside : ∀ {w : World} {acts : List Act}, ∀ x ∈ steps w acts, x.label = .outside →
    ∃ t, x.after = { x.before with clock := t }
  | _, [], _, hx, _ => absurd hx List.not_mem_nil
  | w, a :: acts, x, hx, hlabel => by
    rcases List.mem_cons.1 hx with rfl | hx
    · cases a with
      | wait t => exact ⟨t, rfl⟩
      | call c =>
        simp only [Act.perform] at hlabel
        split at hlabel
        · cases hlabel
        · cases hlabel
    · exact steps_outside x hx hlabel

/-! ## Calls in a row -/

/-- The calls of a script, each with how it turns out. -/
def turnsOut (w : World) (cs : List Call) : List Label := (steps w (cs.map Act.call)).map (·.label)

/-- Where the calls of a script lead. -/
def leadsTo (w : World) (cs : List Call) : World := play w (cs.map Act.call)

section
variable {w w' : World} {c : Call} {cs : List Call}

theorem perform_ok (h : exec c w = .ok w') : Act.perform w (.call c) = (.ok c, w') := by simp only [Act.perform, h]

theorem turnsOut_ok (h : exec c w = .ok w') : turnsOut w (c :: cs) = .ok c :: turnsOut w' cs := by
  show (Act.perform w (.call c)).1 :: turnsOut (Act.perform w (.call c)).2 cs = _
  rw [perform_ok h]

theorem leadsTo_ok (h : exec c w = .ok w') : leadsTo w (c :: cs) = leadsTo w' cs := by
  show leadsTo (Act.perform w (.call c)).2 cs = _
  rw [perform_ok h]

theorem turnsOut_cons {ls : List Label} (h : turnsOut w (c :: cs) = .ok c :: ls) :
    ∃ w', exec c w = .ok w' ∧ turnsOut w' cs = ls := by
  rcases hc : exec c w with e | w'
  · obtain ⟨hhead, -⟩ := List.cons.inj h
    simp [Act.perform, hc] at hhead
  · rw [turnsOut_ok hc] at h
    exact ⟨w', rfl, (List.cons.inj h).2⟩

/-- Everyone in a queue is served when the first of any queue is. -/
theorem serves {α : Type} {call : α → Call} {J : List α → World → Prop}
    (hcons : ∀ x xs w, J (x :: xs) w → ∃ w', exec (call x) w = .ok w' ∧ J xs w') : ∀ {xs : List α} {w : World}, J xs w →
    turnsOut w (xs.map call) = xs.map (fun x => .ok (call x))
  | [], _, _ => rfl
  | x :: xs, w, h => by
    obtain ⟨w', hok, hrest⟩ := hcons x xs w h
    rw [List.map_cons, List.map_cons, turnsOut_ok hok, serves hcons hrest]

/-- What everyone in a queue that was served got adds up. -/
theorem served_pays {α : Type} {call : α → Call} {J : List α → World → Prop} {R : List α → World → World → Prop}
    (hnil : ∀ w, R [] w w)
    (hcons : ∀ x xs w w', J (x :: xs) w → exec (call x) w = .ok w' → J xs w' ∧ ∀ w'', R xs w' w'' → R (x :: xs) w w'') :
    ∀ {xs : List α} {w : World}, J xs w → turnsOut w (xs.map call) = xs.map (fun x => .ok (call x)) →
      R xs w (leadsTo w (xs.map call))
  | [], w, _, _ => hnil w
  | x :: xs, w, h, hturns => by
    rw [List.map_cons, List.map_cons] at hturns
    obtain ⟨w', hok, hrest⟩ := turnsOut_cons hturns
    obtain ⟨hnext, hR⟩ := hcons x xs w w' h hok
    rw [List.map_cons, leadsTo_ok hok]
    exact hR _ (served_pays hnil hcons hnext hrest)

end

/-! ## Before the program is used -/

/-- A world before the program has been used: mints, token accounts of wallets, and lamports. -/
def blank (mints : Pubkey → Option Mint) (wallets : Address → Option TokenAccount) (lamports : Address → ℕ) :
    World where
  clock := 0
  states _ := none
  vestings _ := none
  pools _ := none
  userStakes _ := none
  mints
  tokenAccounts
    | .key k => wallets (.key k)
    | .ata owner mint => wallets (.ata owner mint)
    | _ => none
  lamports
  log := []

theorem blank_genesis (mints : Pubkey → Option Mint) (wallets : Address → Option TokenAccount)
    (lamports : Address → ℕ) : Genesis (blank mints wallets lamports) := by
  refine ⟨⟨by simp [blank], by simp [blank]⟩, fun _ => rfl, fun _ => rfl, fun _ => rfl, fun _ => rfl, ?_, rfl⟩
  rintro a ⟨A, rfl | rfl | rfl⟩ <;> rfl

/-! ## A small presale -/

/-- Five wallets hold lamports and tokens of the mint `100`, which has no decimals. -/
def sampleWorld : World :=
  blank (fun k => if k = 100 then some ⟨none, 0⟩ else none)
    (fun
      | .ata (.key k) m => if m = 100 ∧ k ∈ ([1, 2, 3, 4, 5] : List Pubkey) then some ⟨100, .key k, 5000⟩ else none
      | _ => none)
    (fun
      | .key k => if k ∈ ([1, 2, 3, 4, 5] : List Pubkey) then 100000 else 0
      | _ => 0)

theorem sampleWorld_genesis : Genesis sampleWorld := blank_genesis _ _ _

/-- A thousand tokens in two stages, with a referral bonus of five percent. -/
def sampleArgs (softCap : ℕ) : InitializePresaleArgs where
  softCap
  hardCap := 5000
  maxContribution := 2000
  tokensForSale := 1000
  startTime := 10
  endTime := 20
  vestingDuration := 100
  vestingCliff := 0
  minClaimAmount := 0
  referralBonusBps := 500
  stages := [⟨1, 400, 0⟩, ⟨2, 600, 0⟩]

/-- The presale of wallet `1`. -/
def sampleCtx : InitializePresale := ⟨100, 1, .key 1⟩

/-- Just after its launch. -/
def sampleLaunched (softCap : ℕ) : World := play sampleWorld [.call (.initializePresale sampleCtx (sampleArgs softCap))]

def sampleFund (amount : ℕ) : Act := .call (.fundPresaleVault ⟨1, 1, .ata (.key 1) 100, 100⟩ amount)

def sampleBuy (buyer : Pubkey) (sol : ℕ) (referrer : Option Address) : Act :=
  .call (.buyTokens ⟨1, buyer, 100, .ata (.key 5) 100⟩ sol referrer)

/-! ## A small pool -/

/-- The presale is run to its end and finalized. -/
def sampleFinalized : List Act :=
  [.call (.initializePresale sampleCtx (sampleArgs 10)), sampleFund 1000, .wait 15, sampleBuy 3 300 none, .wait 21,
    .call (.finalizePresale ⟨1, 1⟩)]

/-- The staking pool of the presale. -/
def samplePool : InitializeStaking := ⟨1, 1, 100⟩

/-- Just after the pool is opened. -/
def sampleOpened (rate : ℕ) : World := play (play sampleWorld sampleFinalized) [.call (.initializeStaking samplePool rate)]

def sampleReward (amount : ℕ) : Act := .call (.fundRewardVault ⟨1, 1, 100, .ata (.key 1) 100⟩ amount)

def sampleStake (user : Pubkey) (amount : ℕ) : Act := .call (.stake ⟨1, user, 100, .ata (.key user) 100⟩ amount)

def sampleUnstake (user : Pubkey) (amount : ℕ) : Act := .call (.unstake ⟨1, user, 100, .ata (.key user) 100⟩ amount)

def sampleClaim (user : Pubkey) : Act := .call (.claimRewards ⟨1, user, 100, .ata (.key user) 100⟩)

end Presale
