/-
The end of a sale that succeeded: once everything has vested, everyone can claim all that was bought,
in any order, and what is left in the token vault is what was not owed.
-/
import Presale.Sale.Claims
import Presale.Sale.Vault
import Presale.System.Supply

namespace Presale

open World Checked Finset

/-! ## A claim that succeeds -/

section
variable {w w' : World} {u mint : Pubkey} {m : Mint}

/-- The associated token account of `u` is still to be created, or its owner has kept it. -/
def AtaFree (u mint : Pubkey) (w : World) : Prop :=
  ∀ t ∈ w.tokenAccounts (.ata (.key u) mint), t.mint = mint ∧ t.owner = .key u

instance (u mint : Pubkey) (w : World) : Decidable (AtaFree u mint w) := inferInstanceAs (Decidable (∀ _ ∈ _, _))

end

/-! ## Everyone claims -/

/-- The claim of `u`. -/
def InitializePresale.claim (ctx : InitializePresale) (u : Pubkey) : Call := .claimVested ⟨ctx.admin, u, ctx.mint⟩

/-- From `w` to `w'` each of `us` was paid all that was still owed, and nobody else anything. -/
structure PaidOut (A mint : Pubkey) (us : List Pubkey) (w w' : World) : Prop where
  locked : ∀ u, (w'.vesting u).totalLocked = (w.vesting u).totalLocked
  claimed : ∀ u ∈ us, (w'.vesting u).alreadyClaimed = (w.vesting u).totalLocked
  received : ∀ u ∈ us, w'.balance (.ata (.key u) mint) = w.balance (.ata (.key u) mint) + (w.vesting u).owed
  others : ∀ u, u ∉ us → w'.vesting u = w.vesting u ∧
    w'.balance (.ata (.key u) mint) = w.balance (.ata (.key u) mint)
  vault : w'.balance (.tokenVault A) + (us.map fun u => (w.vesting u).owed).sum = w.balance (.tokenVault A)

section
variable {A mint u : Pubkey} {us : List Pubkey} {w w' w'' : World} {st : PresaleState} {v : UserVesting} {paid : ℕ}

theorem PaidOut.nil (A mint : Pubkey) (w : World) : PaidOut A mint [] w w where
  locked _ := rfl
  claimed _ hu := absurd hu List.not_mem_nil
  received _ hu := absurd hu List.not_mem_nil
  others _ _ := ⟨rfl, rfl⟩
  vault := rfl

/-- A claim moves what it pays from the token vault to the user's token account. -/
theorem Claimed.received {c : ClaimVested} (hc : Claimed c w w' st v paid) :
    w'.balance (.ata (.key c.user) c.mint) = w.balance (.ata (.key c.user) c.mint) + paid ∧
      ∀ x, x ≠ c.user → w'.balance (.ata (.key x) c.mint) = w.balance (.ata (.key x) c.mint) := by
  obtain ⟨f, hready, hmove⟩ := hc.tokenAccounts
  constructor
  · rw [balance_eq, balance_eq, hmove.target (by simp), hready.balance]
  · intro x hx
    rw [balance_eq, balance_eq, hmove.balance_other (by simp) (by simpa using hx), hready.balance]

/-- One claim of everything, and then the rest of the queue. -/
theorem PaidOut.cons (hc : Claimed ⟨A, u, mint⟩ w w' st v paid) (hall : paid = (w.vesting u).owed)
    (hleft : (w.vesting u).alreadyClaimed ≤ (w.vesting u).totalLocked) (hu : u ∉ us) (h : PaidOut A mint us w' w'') :
    PaidOut A mint (u :: us) w w'' := by
  obtain ⟨hreceived, hothers⟩ := hc.received
  have hvault : w'.balance (.tokenVault A) + paid = w.balance (.tokenVault A) := hc.vault
  have hrec := vesting_of hc.vesting
  have hself : w'.vesting u = { v with alreadyClaimed := v.alreadyClaimed + paid } := by
    rw [vesting_update hc.vestings, Function.update_self]
  have hother : ∀ x, x ≠ u → w'.vesting x = w.vesting x := by
    intro x hx
    rw [vesting_update hc.vestings, Function.update_of_ne hx]
  have hmem : ∀ x ∈ us, x ≠ u := by
    rintro x hx rfl
    exact hu hx
  have hlocked : ∀ x, (w'.vesting x).totalLocked = (w.vesting x).totalLocked := by
    intro x
    by_cases hx : x = u
    · rw [hx, hself, hrec]
    · rw [hother x hx]
  obtain ⟨hlast, hkept⟩ := h.others u hu
  simp only [hrec, UserVesting.owed] at hall hleft
  constructor
  · intro x
    rw [h.locked, hlocked]
  · intro x hx
    rcases List.mem_cons.1 hx with rfl | hx
    · rw [hlast, hself, hrec]
      show v.alreadyClaimed + paid = v.totalLocked
      omega
    · rw [h.claimed x hx, hlocked]
  · intro x hx
    rcases List.mem_cons.1 hx with rfl | hx
    · rw [hkept, hreceived, hrec, UserVesting.owed, hall]
    · rw [h.received x hx, hothers x (hmem x hx), hother x (hmem x hx)]
  · intro x hx
    have hxu := List.ne_of_not_mem_cons hx
    obtain ⟨hv, hb⟩ := h.others x (List.not_mem_of_not_mem_cons hx)
    exact ⟨hv.trans (hother x hxu), hb.trans (hothers x hxu)⟩
  · have hrest := h.vault
    have hsum : us.map (fun x => (w'.vesting x).owed) = us.map (fun x => (w.vesting x).owed) :=
      List.map_congr_left fun x hx => by rw [hother x (hmem x hx)]
    rw [hsum] at hrest
    rw [List.map_cons, List.sum_cons, hrec, UserVesting.owed]
    omega

end

section
variable {ctx : InitializePresale} {args : InitializePresaleArgs} {w₁ w w' : World} {tr : List Transition}
  {st : PresaleState} {u : Pubkey} {us : List Pubkey}

/-- Everything has vested in a sale that lets buyers claim, and the users `us` have something left to
claim. -/
structure Payable (ctx : InitializePresale) (args : InitializePresaleArgs) (st : PresaleState) (us : List Pubkey)
    (w : World) : Prop where
  opened : Open ctx args w st
  accepted : ∃ now, args.Accepted now
  notPaused : ¬ st.isPaused
  softCap : st.softCapLamports ≤ st.totalRaisedLamports
  mint : ∃ m, w.mints ctx.mint = some m
  clock : IsI64 w.clock
  start : 0 ≤ args.endTime + args.vestingCliff
  whole : args.endTime + args.vestingCliff + args.vestingDuration ≤ w.clock
  nodup : us.Nodup
  owed : ∀ u ∈ us, 0 < (w.vesting u).owed
  atas : ∀ u ∈ us, AtaFree u ctx.mint w

/-- Whoever is owed something owns a record that has vested. -/
theorem Payable.vested (h : Payable ctx args st us w) (hu : u ∈ us) : ∃ v, w.vestings u = some v ∧
    v.startTime + st.vestingCliff = args.endTime + args.vestingCliff ∧ v.vestedAt st w.clock = v.totalLocked := by
  have ho := h.opened
  have howed := h.owed u hu
  rcases hv : w.vestings u with _ | v
  · simp [vesting, hv, UserVesting.owed] at howed
  have hrec := vesting_of hv
  have hlocked : 0 < (w.vesting u).totalLocked := by unfold UserVesting.owed at howed; omega
  refine ⟨v, rfl, ho.vestingStart hv (hrec ▸ hlocked), ?_⟩
  have hvested := ho.vestedAt_whole hlocked h.whole
  rwa [hrec] at hvested

/-- The first of the queue is paid in full, and the rest of it can still be. -/
theorem Payable.claim (h : Payable ctx args st (u :: us) w) (hok : exec (ctx.claim u) w = .ok w') :
    Payable ctx args st us w' ∧ us.map (fun u => (w'.vesting u).owed) = us.map (fun u => (w.vesting u).owed) ∧
      w'.balance (.tokenVault ctx.admin) + (w.vesting u).owed = w.balance (.tokenVault ctx.admin) ∧
      ∀ w'', PaidOut ctx.admin ctx.mint us w' w'' → PaidOut ctx.admin ctx.mint (u :: us) w w'' := by
  have ho := h.opened
  obtain ⟨m, hm⟩ := h.mint
  obtain ⟨v, hv, -, hvested⟩ := h.vested List.mem_cons_self
  obtain ⟨st', v', paid, hc⟩ := claimVested_ok hok
  have hst' := hc.state
  rw [ho.state] at hst'; cases hst'
  have hv' := hc.vesting
  rw [hv] at hv'; cases hv'
  have hpaid : paid = (w.vesting u).owed := by
    have hpaidEq := hc.paidEq
    rw [hvested] at hpaidEq
    rw [vesting_of hv]
    exact hpaidEq
  subst hpaid
  obtain ⟨hnot, hnodup⟩ := List.nodup_cons.1 h.nodup
  have hne : ∀ x ∈ us, x ≠ u := by
    rintro x hx rfl
    exact hnot hx
  have hkept : ∀ x ∈ us, w'.vesting x = w.vesting x := by
    intro x hx
    rw [vesting_update hc.vestings, Function.update_of_ne (hne x hx)]
  refine ⟨?_, List.map_congr_left fun x hx => by rw [hkept x hx], hc.vault,
    fun w'' hrest => .cons hc rfl (ho.books.claimed u) hnot hrest⟩
  have hstep : Step w (.ok (ctx.claim u)) w' := .ok trivial hok
  obtain ⟨st₂, ho'⟩ := ho.step (hstep.frame ho.owned) (.claim rfl hc)
  obtain rfl : st₂ = st := by
    have hst₂ := ho'.state
    rw [hc.states, ho.state] at hst₂
    exact (Option.some.inj hst₂).symm
  refine ⟨ho', h.accepted, h.notPaused, h.softCap, ⟨m, by rw [hc.mints]; exact hm⟩, by rw [hc.clock]; exact h.clock,
    h.start, by rw [hc.clock]; exact h.whole, hnodup, fun x hx => ?_, fun x hx => ?_⟩
  · rw [hkept x hx]
    exact h.owed x (List.mem_cons_of_mem _ hx)
  · -- the claim of one user leaves the token accounts of the others
    intro t' ht'
    rw [Option.mem_def] at ht'
    obtain ⟨f, hready, hmove⟩ := hc.tokenAccounts
    rw [hmove.other _ (by simp) (by simpa using hne x hx), hready.other _ (by simpa using hne x hx)] at ht'
    exact h.atas x (List.mem_cons_of_mem _ hx) t' ht'

/-- A queue that is served has been paid in full. -/
theorem Payable.paid (h : Payable ctx args st us w)
    (hturns : turnsOut w (us.map ctx.claim) = us.map fun u => .ok (ctx.claim u)) :
    PaidOut ctx.admin ctx.mint us w (leadsTo w (us.map ctx.claim)) := by
  refine served_pays (J := Payable ctx args st) (PaidOut.nil _ _) ?_ h hturns
  intro u us w w' h hok
  obtain ⟨hrest, -, -, hall⟩ := h.claim hok
  exact ⟨hrest, hall⟩

theorem SaleRun.mint (h : SaleRun ctx args w₁ tr w) : ∃ m, w.mints ctx.mint = some m := by
  obtain ⟨w₀, pre, wₗ, -, -, -, hstep⟩ := h.launch
  cases hstep with
  | ok _ hok =>
    have hl := initializePresale_ok hok
    obtain ⟨m, hm⟩ := initializePresale_mint hok
    obtain ⟨⟨m', hm', -⟩, -⟩ := h.run.mints (k := ctx.mint) (m := m) (by rw [hl.mints]; exact hm)
    exact ⟨m', hm'⟩

end

end Presale
