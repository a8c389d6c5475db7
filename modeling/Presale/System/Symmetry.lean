/-
No key is privileged by the program itself: whoever has a right has it because the accounts say so.
Rename all keys in any way, and every call, every run and the set of reachable worlds are what they
were, renamed.
-/
import Presale.Effects.Renaming
import Presale.Program.Script

namespace Presale

open World Renaming

section
variable {σ : Equiv.Perm Pubkey} {w w' : World} {a : Address} {l : Label}

/-! ## Steps -/

def Label.rename (σ : Equiv.Perm Pubkey) : Label → Label
  | .ok c => .ok (c.rename σ)
  | .failed c e => .failed (c.rename σ) e
  | .outside => .outside

theorem Call.InRange.rename {c : Call} (h : c.InRange) : (c.rename σ).InRange := by
  cases c <;> exact h

theorem isVault_rename : (a.rename σ).IsVault ↔ a.IsVault := by
  constructor
  · rintro ⟨A, h | h | h⟩
    · exact ⟨σ.symm A, .inl (by rw [← a.rename_symm σ, h]; rfl)⟩
    · exact ⟨σ.symm A, .inr (.inl (by rw [← a.rename_symm σ, h]; rfl))⟩
    · exact ⟨σ.symm A, .inr (.inr (by rw [← a.rename_symm σ, h]; rfl))⟩
  · rintro ⟨A, rfl | rfl | rfl⟩
    · exact ⟨σ A, .inl rfl⟩
    · exact ⟨σ A, .inr (.inl rfl)⟩
    · exact ⟨σ A, .inr (.inr rfl)⟩

theorem isAuthority_rename : (a.rename σ).IsAuthority ↔ a.IsAuthority := by
  constructor
  · rintro ⟨A, h⟩
    exact ⟨σ.symm A, by rw [← a.rename_symm σ, h]; rfl⟩
  · rintro ⟨A, rfl⟩
    exact ⟨σ A, rfl⟩

theorem exists_rename (σ : Equiv.Perm Pubkey) (b : Address) : ∃ a : Address, b = a.rename σ :=
  ⟨(addresses σ).symm b, ((addresses σ).apply_symm_apply b).symm⟩

theorem Outside.rename (h : Outside w w') : Outside (w.rename σ) (w'.rename σ) := by
  refine ⟨h.clock, h.clockFits, ?_, ?_, ?_, ?_, ?_, ?_, ?_, ?_, ?_⟩
  · exact congrArg (carry σ (Option.map (PresaleState.rename σ))) h.states
  · exact congrArg (carry σ (Option.map (UserVesting.rename σ))) h.vestings
  · exact congrArg (carry σ id) h.pools
  · exact congrArg (carry σ (Option.map (UserStake.rename σ))) h.userStakes
  · exact congrArg (List.map (Event.rename σ)) h.log
  · intro k m hm
    obtain ⟨k, rfl⟩ := σ.surjective k
    rw [rename_mints] at hm
    obtain ⟨t, ht, rfl⟩ := Option.map_eq_some_iff.1 hm
    obtain ⟨t', ht', hlater⟩ := h.mints k t ht
    refine ⟨t'.rename σ, by rw [rename_mints, ht']; rfl, hlater.decimals, fun hnone => ?_⟩
    rw [Mint.rename_mintAuthority, Option.map_eq_none_iff] at hnone ⊢
    exact hlater.revoked hnone
  · intro b t ht hauthority
    obtain ⟨a, rfl⟩ := exists_rename σ b
    rw [rename_tokenAccounts] at ht
    obtain ⟨s, hs, rfl⟩ := Option.map_eq_some_iff.1 ht
    obtain ⟨amount, hle, hheld⟩ := h.held a s hs (isAuthority_rename.1 hauthority)
    exact ⟨amount, hle, by rw [rename_tokenAccounts, hheld]; rfl⟩
  · intro b hvault hnone
    obtain ⟨a, rfl⟩ := exists_rename σ b
    rw [rename_tokenAccounts, Option.map_eq_none_iff] at hnone ⊢
    exact h.vaults a (isVault_rename.1 hvault) hnone
  · intro A
    exact h.solVaults (σ.symm A)

theorem Step.rename (hσ : σ metadataProgramId = metadataProgramId) (h : Step w l w') :
    Step (w.rename σ) (l.rename σ) (w'.rename σ) := by
  cases h with
  | ok hc hok => exact .ok hc.rename (by rw [exec_rename hσ, hok]; rfl)
  | failed hc herr => exact .failed hc.rename (by rw [exec_rename hσ, herr]; rfl)
  | outside ho => exact .outside ho.rename

theorem Genesis.rename (h : Genesis w) : Genesis (w.rename σ) := by
  refine ⟨h.clockFits, fun k => ?_, fun k => ?_, fun k => h.pools (σ.symm k), fun k => ?_, fun b hb => ?_, ?_⟩
  · exact congrArg (Option.map (PresaleState.rename σ)) (h.states (σ.symm k))
  · exact congrArg (Option.map (UserVesting.rename σ)) (h.vestings (σ.symm k))
  · exact congrArg (Option.map (UserStake.rename σ)) (h.userStakes (σ.symm k))
  · obtain ⟨a, rfl⟩ := exists_rename σ b
    rw [rename_tokenAccounts, h.vaults a (isVault_rename.1 hb)]
    rfl
  · exact congrArg (List.map (Event.rename σ)) h.log

theorem Reachable.rename (hσ : σ metadataProgramId = metadataProgramId) (h : Reachable w) : Reachable (w.rename σ) := by
  obtain ⟨w₀, tr, h0, hrun⟩ := h
  exact ⟨w₀.rename σ, _, h0.rename, run_along (f := World.rename σ) (g := Label.rename σ) (fun _ _ _ hs => hs.rename hσ) hrun⟩

end

/-- The program knows no key but the Metaplex program's: renamed in any way that keeps that one, every
call fails as before or does the same thing, renamed; every run is a run; and the worlds reached are those
that were. -/
theorem program_symmetric {σ : Equiv.Perm Pubkey} (hσ : σ metadataProgramId = metadataProgramId) :
    (∀ c w, exec (c.rename σ) (w.rename σ) = World.rename σ <$> exec c w) ∧
    (∀ w tr w', Run w tr w' → Run (w.rename σ) (tr.map (along (World.rename σ) (Label.rename σ))) (w'.rename σ)) ∧
    ∀ w : World, Reachable (w.rename σ) ↔ Reachable w := by
  refine ⟨fun c w => exec_rename hσ, fun w tr w' h => ?_, fun w => ?_⟩
  · exact run_along (f := World.rename σ) (g := Label.rename σ) (fun _ _ _ hs => hs.rename hσ) h
  refine ⟨fun h => ?_, Reachable.rename hσ⟩
  have hback := h.rename (σ := σ.symm) (σ.symm_apply_eq.2 hσ.symm)
  rwa [w.rename_symm] at hback

/-- Wallets `1` and `2` change places in the small sale: the presale is then that of wallet `2`. -/
theorem program_symmetric_sample : Reachable ((play sampleWorld sampleFinalized).rename (Equiv.swap 1 2)) := by
  have hkeeps : (Equiv.swap (1 : Pubkey) 2) metadataProgramId = metadataProgramId := by decide +kernel
  exact ((program_symmetric hkeeps).2.2 _).2 ⟨_, _, sampleWorld_genesis, play_run (by decide +kernel)⟩

end Presale
