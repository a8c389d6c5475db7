/-
What the called programs do to the accounts: a token transfer, the creation of a token account and
a lamport transfer, each with what it leaves alone.
-/
import Presale.Program.Ledger

namespace Presale

open Checked World

/-! ## Token accounts -/

/-- All token accounts. -/
abbrev TokenAccounts := Address → Option TokenAccount

/-- The tokens at an address. -/
def TokenAccounts.balance (f : TokenAccounts) (a : Address) : ℕ := ((f a).map (·.amount)).getD 0

theorem balance_eq (w : World) (a : Address) : w.balance a = TokenAccounts.balance w.tokenAccounts a := rfl

theorem TokenAccounts.balance_of {f : TokenAccounts} {a : Address} {t : TokenAccount} (h : f a = some t) :
    balance f a = t.amount := by simp [balance, h]

/-- `amount` tokens go from `src` to `dst`. -/
structure TokenMove (f f' : TokenAccounts) (src dst : Address) (amount : ℕ) : Prop where
  covered : amount ≤ f.balance src
  /-- Accounts stay, with their mint and owner. -/
  kept : ∀ x t, f x = some t → ∃ n, f' x = some { t with amount := n }
  absent : ∀ x, f x = none → f' x = none
  source : src ≠ dst → f'.balance src = f.balance src - amount
  target : src ≠ dst → f'.balance dst = f.balance dst + amount
  other : ∀ x, x ≠ src → x ≠ dst → f' x = f x
  self : src = dst → f' = f

/-- An address other than the source does not lose tokens. -/
theorem TokenMove.le_balance {f f' : TokenAccounts} {src dst x : Address} {amount : ℕ}
    (h : TokenMove f f' src dst amount) (hx : x ≠ src) : f.balance x ≤ f'.balance x := by
  by_cases hd : x = dst
  · subst hd; rw [h.target (Ne.symm hx)]; omega
  · simp [TokenAccounts.balance, h.other x hx hd]

/-- An address that takes no part keeps its tokens. -/
theorem TokenMove.balance_other {f f' : TokenAccounts} {src dst x : Address} {amount : ℕ}
    (h : TokenMove f f' src dst amount) (hs : x ≠ src) (hd : x ≠ dst) : f'.balance x = f.balance x := by
  simp [TokenAccounts.balance, h.other x hs hd]

/-- The accounts a successful transfer names, and the accounts it leaves. -/
theorem transferChecked_ok {w w' : World} {src dst authority : Address} {mint : Pubkey} {amount decimals : ℕ}
    (h : transferChecked w src mint dst authority amount decimals = .ok w') :
    (∃ a, w.tokenAccounts src = some a ∧ a.mint = mint ∧ a.owner = authority) ∧
    TokenMove w.tokenAccounts w'.tokenAccounts src dst amount ∧
    w' = { w with tokenAccounts := w'.tokenAccounts } := by
  unfold transferChecked account at h
  simp only [bind_ok_iff, okOr_eq_ok, require_eq_ok] at h
  obtain ⟨a, ha, b, hb, _, hle, _, hab, _, hm, m, -, _, -, _, ho, h⟩ := h
  refine ⟨⟨a, ha, hm, ho⟩, ?_⟩
  split at h
  · rename_i hsd
    cases h
    refine ⟨⟨by rw [TokenAccounts.balance_of ha]; exact hle, fun x t ht => ⟨t.amount, ht⟩, fun _ hx => hx, ?_, ?_,
      fun _ _ _ => rfl, fun _ => rfl⟩, rfl⟩
    · intro hne; exact absurd hsd hne
    · intro hne; exact absurd hsd hne
  · rename_i hsd
    cases h
    simp only [setTokenAccount_tokenAccounts]
    refine ⟨⟨by rw [TokenAccounts.balance_of ha]; exact hle, ?_, ?_, ?_, ?_, ?_, fun e => absurd e hsd⟩, rfl⟩
    · intro x t ht
      by_cases hxd : x = dst
      · subst hxd; rw [hb] at ht; cases ht
        exact ⟨b.amount + amount, by simp⟩
      · rw [Function.update_of_ne hxd]
        by_cases hxs : x = src
        · subst hxs; rw [ha] at ht; cases ht
          exact ⟨a.amount - amount, by simp⟩
        · exact ⟨t.amount, by rw [Function.update_of_ne hxs, ht]⟩
    · intro x hx
      have hxd : x ≠ dst := by rintro rfl; rw [hb] at hx; cases hx
      have hxs : x ≠ src := by rintro rfl; rw [ha] at hx; cases hx
      rw [Function.update_of_ne hxd, Function.update_of_ne hxs, hx]
    · intro _
      simp [TokenAccounts.balance, Function.update_of_ne hsd, ha]
    · intro _
      simp [TokenAccounts.balance, hb]
    · intro x hxs hxd
      rw [Function.update_of_ne hxd, Function.update_of_ne hxs]

/-- A transfer between two accounts of the mint, covered and signed for, succeeds. -/
theorem transferChecked_succeeds {w : World} {src dst : Address} {mint : Pubkey} {amount : ℕ} {a b : TokenAccount}
    {m : Mint} (ha : w.tokenAccounts src = some a) (hb : w.tokenAccounts dst = some b) (hle : amount ≤ a.amount)
    (ham : a.mint = mint) (hbm : b.mint = mint) (hm : w.mints mint = some m) :
    ∃ w', transferChecked w src mint dst a.owner amount m.decimals = .ok w' := by
  unfold transferChecked account
  rw [ha, hb, hm]
  simp only [bind_ok_iff, okOr_eq_ok, require_eq_ok]
  by_cases hsd : src = dst
  · exact ⟨w, a, rfl, b, rfl, (), hle, (), ham.trans hbm.symm, (), ham, m, rfl, (), rfl, (), rfl, if_pos hsd⟩
  · exact ⟨_, a, rfl, b, rfl, (), hle, (), ham.trans hbm.symm, (), ham, m, rfl, (), rfl, (), rfl, if_neg hsd⟩

/-- A transfer that fails for lack of tokens is one the source does not cover. -/
theorem transferChecked_short {w : World} {src dst authority : Address} {mint : Pubkey} {amount decimals : ℕ}
    (h : transferChecked w src mint dst authority amount decimals = .error (.runtime .insufficientFunds)) :
    w.balance src < amount := by
  unfold transferChecked account at h
  simp only [bind_error_iff, require_eq_error, okOr_eq_ok, okOr_eq_error, reduceCtorEq, Error.runtime.injEq,
    and_false, false_or, and_true] at h
  obtain ⟨a, ha, b, hb, hlt | ⟨_, -, _, -, _, -, m, -, _, -, _, -, h⟩⟩ := h
  · simpa [balance, ha] using hlt
  · split at h <;> cases h

/-- Only the mint's authority mints. -/
theorem mintTo_ok {w w' : World} {mint : Pubkey} {dst authority : Address} {amount : ℕ}
    (h : mintTo w mint dst authority amount = .ok w') : ∃ a m, w.tokenAccounts dst = some a ∧ a.mint = mint ∧
      w.mints mint = some m ∧ m.mintAuthority = some authority ∧
      w' = w.setTokenAccount dst { a with amount := a.amount + amount } := by
  unfold mintTo account at h
  simp only [bind_ok_iff, okOr_eq_ok, require_eq_ok, pure_ok_iff] at h
  obtain ⟨a, ha, _, hmint, m, hm, current, hcurrent, _, rfl, rfl⟩ := h
  exact ⟨a, m, ha, hmint, hm, hcurrent, rfl⟩

/-- Only the mint's authority passes its authority on. -/
theorem setMintAuthority_ok {w w' : World} {mint : Pubkey} {authority : Address} {newAuthority : Option Address}
    (h : setMintAuthority w mint authority newAuthority = .ok w') : ∃ m, w.mints mint = some m ∧
      m.mintAuthority = some authority ∧ w' = w.setMint mint { m with mintAuthority := newAuthority } := by
  unfold setMintAuthority account at h
  simp only [bind_ok_iff, okOr_eq_ok, require_eq_ok, pure_ok_iff] at h
  obtain ⟨m, hm, current, hcurrent, _, rfl, rfl⟩ := h
  exact ⟨m, hm, hcurrent, rfl⟩

theorem createTokenAccount_ok {w w' : World} {a owner : Address} {mint : Pubkey}
    (h : createTokenAccount w a mint owner = .ok w') :
    w.tokenAccounts a = none ∧ w' = w.setTokenAccount a ⟨mint, owner, 0⟩ := by
  unfold createTokenAccount account at h
  simp only [bind_ok_iff, okOr_eq_ok, require_eq_ok, pure_ok_iff] at h
  obtain ⟨_, ha, _, _, rfl⟩ := h
  exact ⟨ha, rfl⟩

theorem createTokenAccount_succeeds {w : World} {a owner : Address} {mint : Pubkey} (ha : w.tokenAccounts a = none)
    (hm : ∃ m, w.mints mint = some m) : createTokenAccount w a mint owner = .ok (w.setTokenAccount a ⟨mint, owner, 0⟩) := by
  unfold createTokenAccount account
  obtain ⟨m, hm⟩ := hm
  simp only [bind_ok_iff, require_eq_ok, okOr_eq_ok, pure_ok_iff]
  exact ⟨(), ha, m, hm, trivial⟩

/-- The accounts with one at `a` ready for use: the one that was there, or an empty one. -/
structure AccountReady (f f' : TokenAccounts) (a : Address) : Prop where
  kept : ∀ x t, f x = some t → f' x = some t
  other : ∀ x, x ≠ a → f' x = f x
  balance : ∀ x, f'.balance x = f.balance x

theorem AccountReady.refl (f : TokenAccounts) (a : Address) : AccountReady f f a :=
  ⟨fun _ _ ht => ht, fun _ _ => rfl, fun _ => rfl⟩

theorem accountReady_create {w w' : World} {a owner : Address} {mint : Pubkey}
    (h : createTokenAccount w a mint owner = .ok w') :
    AccountReady w.tokenAccounts w'.tokenAccounts a ∧ w' = { w with tokenAccounts := w'.tokenAccounts } := by
  obtain ⟨hnone, rfl⟩ := createTokenAccount_ok h
  refine ⟨⟨?_, ?_, ?_⟩, rfl⟩
  · intro x t ht
    have : x ≠ a := by rintro rfl; rw [hnone] at ht; cases ht
    rw [setTokenAccount_tokenAccounts, Function.update_of_ne this, ht]
  · intro x hx
    rw [setTokenAccount_tokenAccounts, Function.update_of_ne hx]
  · intro x
    by_cases hx : x = a
    · subst hx; simp [TokenAccounts.balance, hnone]
    · simp [TokenAccounts.balance, Function.update_of_ne hx]

theorem initAtaIfNeeded_ok {w w' : World} {owner mint : Pubkey} (h : initAtaIfNeeded w owner mint = .ok w') :
    AccountReady w.tokenAccounts w'.tokenAccounts (.ata (.key owner) mint) ∧
      w' = { w with tokenAccounts := w'.tokenAccounts } := by
  unfold initAtaIfNeeded at h
  split at h
  · exact accountReady_create h
  · simp only [bind_ok_iff, require_eq_ok, pure_ok_iff] at h
    obtain ⟨_, _, _, _, rfl⟩ := h
    exact ⟨.refl _ _, rfl⟩

/-- A failing transfer, or a failing creation of an account, is no failure of the program's own. -/
theorem transferChecked_error {w : World} {src dst authority : Address} {mint : Pubkey} {amount decimals : ℕ}
    {e : Error} (h : transferChecked w src mint dst authority amount decimals = .error e) : ∃ r, e = .runtime r := by
  unfold transferChecked account at h
  simp only [bind_error_iff, require_eq_error, okOr_eq_error] at h
  rcases h with ⟨-, rfl⟩ | ⟨_, _, ⟨-, rfl⟩ | ⟨_, _, ⟨-, rfl⟩ | ⟨_, _, ⟨-, rfl⟩ | ⟨_, _, ⟨-, rfl⟩ | ⟨_, _, ⟨-, rfl⟩ | ⟨_, _,
    ⟨-, rfl⟩ | ⟨_, _, ⟨-, rfl⟩ | ⟨_, _, h⟩⟩⟩⟩⟩⟩⟩⟩
  all_goals first | exact ⟨_, rfl⟩ | (split at h <;> cases h)

theorem initAtaIfNeeded_error {w : World} {owner mint : Pubkey} {e : Error} (h : initAtaIfNeeded w owner mint = .error e) :
    ∃ r, e = .runtime r := by
  unfold initAtaIfNeeded createTokenAccount account at h
  split at h
  · simp only [bind_error_iff, require_eq_error, okOr_eq_error, pure_ne_error, and_false, exists_false, or_false] at h
    rcases h with ⟨-, rfl⟩ | ⟨_, _, -, rfl⟩
    · exact ⟨_, rfl⟩
    · exact ⟨_, rfl⟩
  · simp only [bind_error_iff, require_eq_error, pure_ne_error, and_false, exists_false, or_false] at h
    rcases h with ⟨-, rfl⟩ | ⟨_, _, -, rfl⟩
    · exact ⟨_, rfl⟩
    · exact ⟨_, rfl⟩

theorem initAtaIfNeeded_short {w : World} {owner mint : Pubkey} :
    initAtaIfNeeded w owner mint ≠ .error (.runtime .insufficientFunds) := by
  unfold initAtaIfNeeded createTokenAccount account
  intro h
  split at h
  · simp only [bind_error_iff, require_eq_error, okOr_eq_error, pure_ne_error, reduceCtorEq, Error.runtime.injEq,
      and_false, exists_false, or_false] at h
  · simp only [bind_error_iff, require_eq_error, pure_ne_error, reduceCtorEq, Error.runtime.injEq, and_false,
      false_or, exists_false] at h

/-! ## Lamports -/

/-- The lamports after `amount` of them went from `src` to `dst`. -/
def movedLamports (f : Address → ℕ) (src dst : Address) (amount : ℕ) : Address → ℕ :=
  let g := Function.update f src (f src - amount)
  Function.update g dst (g dst + amount)

theorem systemTransfer_ok {w w' : World} {src dst : Address} {amount : ℕ}
    (h : systemTransfer w src dst amount = .ok w') :
    amount ≤ w.lamports src ∧ w' = { w with lamports := movedLamports w.lamports src dst amount } := by
  unfold systemTransfer at h
  simp only [bind_ok_iff, require_eq_ok, pure_ok_iff] at h
  obtain ⟨_, hle, rfl⟩ := h
  exact ⟨hle, rfl⟩

section
variable (f : Address → ℕ) {src dst x : Address} (amount : ℕ)

theorem movedLamports_source (h : src ≠ dst) : movedLamports f src dst amount src = f src - amount := by
  simp [movedLamports, Function.update_of_ne h]

theorem movedLamports_target (h : src ≠ dst) : movedLamports f src dst amount dst = f dst + amount := by
  simp [movedLamports, Function.update_of_ne h.symm]

theorem movedLamports_other (hs : x ≠ src) (hd : x ≠ dst) : movedLamports f src dst amount x = f x := by
  simp [movedLamports, Function.update_of_ne hs, Function.update_of_ne hd]

/-- An address other than the source does not lose lamports. -/
theorem le_movedLamports (hs : x ≠ src) : f x ≤ movedLamports f src dst amount x := by
  by_cases hd : x = dst
  · subst hd; rw [movedLamports_target f amount hs.symm]; omega
  · rw [movedLamports_other f amount hs hd]

end

/-! ## Errors -/

/-- The error of an operator that left its range. -/
def Error.IsOverflow (e : Error) : Prop := e = .panic ∨ e = .presale .mathOverflow

/-- None of the errors of `x` is an overflow. -/
abbrev InRange {α : Type} (x : Except Error α) : Prop := Fails (fun e => ¬ e.IsOverflow) x

theorem not_isOverflow_runtime (r : RuntimeError) : ¬ (Error.runtime r).IsOverflow := by simp [Error.IsOverflow]

section
variable {P : Error → Prop} {w : World} {src dst : Address} {amount : ℕ}

theorem transferChecked_fails {authority : Address} {mint : Pubkey} {decimals : ℕ} (hruntime : ∀ r, P (.runtime r)) :
    Fails P (transferChecked w src mint dst authority amount decimals) := by
  intro e he
  obtain ⟨r, rfl⟩ := transferChecked_error he
  exact hruntime r

theorem systemTransfer_fails (hruntime : ∀ r, P (.runtime r)) : Fails P (systemTransfer w src dst amount) := by
  unfold systemTransfer
  exact .bind (.require (hruntime _)) fun _ _ => .pure _

end

end Presale
