import StalkLedger.Proofs.Frame

/-!
# What becomes of a dewhitelisted asset

An asset is in the registry for good, and a request does one of a few things to its entry
(`Vault.handle_entry`): it leaves all but the totals alone, or it closes the asset, sets its rate,
or lets it grow.  Nothing opens an asset again.

**Dewhitelisting** (`Vault.dewhitelisting_lasts`).  After an asset has been dewhitelisted it is
closed for good, and whatever is asked of the vault, no deposit and no conversion goes into it.
Its index stays where it was until its rate is raised: the rate of a closed asset can be set like
that of any other, and then it grows again (`Vault.dewhitelisted_asset_grows`).
-/

namespace StalkLedger

/-- What a request makes of the entry of an asset. -/
inductive Asset.Turns (asset : AssetId) (entry : Asset) : Request → Asset → Prop
  /-- At most the totals change. -/
  | keep {request entry'} (h : entry'.emptied = entry.emptied) : Turns asset entry request entry'
  | close : Turns asset entry (.call (.dewhitelist asset))
      { entry with depositsEnabled := false, accrualRate := 0 }
  | tune {rate : Index} (h : 0 ≤ rate.toInt) :
      Turns asset entry (.call (.setAccrualRate asset rate)) { entry with accrualRate := rate }
  | grow {report} {elapsed index : Index}
      (h : index.toInt = entry.accrualIndex.toInt + entry.accrualRate.toInt * elapsed.toInt) :
      Turns asset entry (.call (.advanceEpoch report)) { entry with accrualIndex := index }

/-- What a request makes of the entry of an asset in the ledger it leaves. -/
def Asset.TurnsIn (asset : AssetId) (entry : Asset) (request : Request) (ledger : Ledger) : Prop :=
  ∃ after, ledger.assets.get? asset = some after ∧ entry.Turns asset request after

namespace Vault

open StalkLedger.Action

variable {vault : Vault} {asset : AssetId} {entry : Asset}

/-! ### What a request does to an entry -/

/-- Entering an asset leaves the entries of others alone. -/
theorem turns_of_withAsset {request : Request} {ledger : Ledger} {id : AssetId} {entry' : Asset}
    (h : ledger.assets.get? asset = some entry)
    (hid : asset = id → entry.Turns asset request entry') :
    entry.TurnsIn asset request (ledger.withAsset id entry') := by
  by_cases heq : asset = id
  · exact ⟨entry', by rw [heq]; exact SortedMap.get?_insert_self _ _ _, hid heq⟩
  · exact ⟨entry, (SortedMap.get?_insert_of_ne _ heq _).trans h, .keep rfl⟩

/-- **What a request does to an asset.** -/
theorem handle_entry (h : vault.ledger.assets.get? asset = some entry) (request : Request) :
    entry.TurnsIn asset request (handle request vault).2.ledger := by
  have kept : entry.TurnsIn asset request vault.ledger := ⟨entry, h, .keep rfl⟩
  cases hentered : vault.entered with
  | true =>
    rw [handle_of_entered hentered]
    exact kept
  | false =>
    cases hretunes : request.retunes with
    | false =>
      obtain ⟨after, hafter, hsame⟩ := (handle_frame vault hretunes).toSameTerms.entry h
      exact ⟨after, hafter, .keep hsame⟩
    | true =>
      cases request with
      | register => cases hretunes
      | whitelist id terms valuation =>
        refine (whitelist_changed hentered id terms valuation).holds kept fun hmade => ?_
        obtain ⟨-, hnew, -, rfl⟩ := whitelist_stages hmade
        -- What is in the registry is not put there anew.
        exact turns_of_withAsset h fun heq => by rw [heq, hnew] at h; cases h
      | call call =>
        cases call with
        | dewhitelist id =>
          refine (transact_changed hentered).holds kept fun hmade => ?_
          obtain ⟨entry', hentry, rfl⟩ := dewhitelist_stages hmade
          refine turns_of_withAsset h fun heq => ?_
          subst heq
          obtain rfl := Option.some.inj (h.symm.trans (Ledger.asset_eq_ok.mp hentry))
          exact .close
        | setAccrualRate id rate =>
          refine (transact_changed hentered).holds kept fun hmade => ?_
          obtain ⟨hrate, entry', hentry, rfl⟩ := setAccrualRate_stages hmade
          refine turns_of_withAsset h fun heq => ?_
          subst heq
          obtain rfl := Option.some.inj (h.symm.trans (Ledger.asset_eq_ok.mp hentry))
          exact .tune hrate
        | advanceEpoch report =>
          refine (transact_changed hentered).holds kept fun hmade => ?_
          rcases advanceEpoch_frame hmade with heq | ⟨elapsed, assets, _, _, -, hgrow, heq⟩
          · rw [heq]
            exact kept
          · rw [heq]
            rcases SortedMap.get?_of_mapEach hgrow asset with ⟨hnone, -⟩ | ⟨a, a', ha, hgrown, ha'⟩
            · rw [h] at hnone
              cases hnone
            · obtain rfl := Option.some.inj (h.symm.trans ha)
              obtain ⟨index, hindex, rfl⟩ := Asset.grow_spec hgrown
              exact ⟨_, ha', .grow hindex⟩
        | _ => cases hretunes

/-! ### Closed assets -/

/-- A closed asset is never opened. -/
theorem run_closed (h : vault.ledger.assets.get? asset = some entry)
    (hclosed : entry.depositsEnabled = false) (requests : List Request) :
    ∃ after, (run requests vault).2.ledger.assets.get? asset = some after ∧
      after.depositsEnabled = false := by
  induction requests generalizing vault entry with
  | nil => exact ⟨entry, h, hclosed⟩
  | cons request requests ih =>
    obtain ⟨next, hnext, hturns⟩ := handle_entry h request
    refine ih hnext ?_
    cases hturns with
    | keep hsame => exact (congrArg Asset.depositsEnabled hsame).trans hclosed
    | close => rfl
    | tune => exact hclosed
    | grow => exact hclosed

/-- An asset that does not grow stays where it is until its rate is raised. -/
theorem run_still (h : vault.ledger.assets.get? asset = some entry)
    (hstill : entry.accrualRate.toInt = 0) {requests : List Request}
    (hrates : ∀ rate, .call (.setAccrualRate asset rate) ∈ requests → rate.toInt ≤ 0) :
    ∃ after, (run requests vault).2.ledger.assets.get? asset = some after ∧
      after.accrualIndex = entry.accrualIndex := by
  induction requests generalizing vault entry with
  | nil => exact ⟨entry, h, rfl⟩
  | cons request requests ih =>
    obtain ⟨next, hnext, hturns⟩ := handle_entry h request
    have hlater : ∀ rate, .call (.setAccrualRate asset rate) ∈ requests → rate.toInt ≤ 0 :=
      fun rate hmem => hrates rate (List.mem_cons_of_mem _ hmem)
    have hnext' : next.accrualRate.toInt = 0 ∧ next.accrualIndex = entry.accrualIndex := by
      cases hturns with
      | keep hsame =>
        have hrate : next.emptied.accrualRate = entry.emptied.accrualRate := congrArg _ hsame
        have hindex : next.emptied.accrualIndex = entry.emptied.accrualIndex := congrArg _ hsame
        exact ⟨(congrArg Signed.toInt hrate).trans hstill, hindex⟩
      | close => exact ⟨Signed.toInt_zero, rfl⟩
      | tune hrate => exact ⟨le_antisymm (hrates _ List.mem_cons_self) hrate, rfl⟩
      | grow hindex =>
        rw [hstill, zero_mul, add_zero] at hindex
        exact ⟨hstill, Signed.ext hindex⟩
    obtain ⟨after, hafter, hindex⟩ := ih hnext hnext'.1 hlater
    exact ⟨after, hafter, hindex.trans hnext'.2⟩

/-! ### What goes into a closed asset -/

theorem requireOpen_of_closed {ledger : Ledger} (h : ledger.assets.get? asset = some entry)
    (hclosed : entry.depositsEnabled = false) :
    ledger.requireOpen asset = .error (.depositsDisabled asset) := by
  rw [Ledger.requireOpen, Ledger.asset_eq_ok.mpr h]
  show (if entry.depositsEnabled = true then _ else _) = _
  rw [if_neg (by rw [hclosed]; exact Bool.false_ne_true)]

/-- Nothing is deposited, whatever it is worth; if it cannot be valued, that is the fault. -/
theorem deposit_of_closed (hentered : vault.entered = false)
    (h : vault.ledger.assets.get? asset = some entry) (hclosed : entry.depositsEnabled = false)
    (owner : AccountId) (quantity : Amount) :
    (serve (.deposit owner asset quantity) vault).1.result =
      (vault.valueOf asset quantity).bind fun _ => .error (.depositsDisabled asset) := by
  have hdeposit (value : Amount) :
      Action.deposit owner asset quantity value vault.ledger = .error (.depositsDisabled asset) := by
    refine bind_apply_error.mpr (.inr ⟨_, rfl, bind_apply_error.mpr (.inl ?_)⟩)
    rw [requireOpen_of_closed h hclosed]
    rfl
  show (vault.deposit owner asset quantity).1.result.map Answer.deposited = _
  rw [Vault.deposit, transact_result hentered]
  cases hvalue : vault.valueOf asset quantity with
  | error fault => rfl
  | ok value =>
    have hfault : ((do
        let value ← (.ok value : Except Fault Amount)
        Action.deposit owner asset quantity value : Action DepositReceipt)) vault.ledger =
        .error (.depositsDisabled asset) :=
      bind_apply_error.mpr (.inr ⟨_, rfl, hdeposit value⟩)
    rw [hfault]
    rfl

/-- Nothing is converted. -/
theorem convert_of_closed (hentered : vault.entered = false) {order : ConversionOrder}
    (h : vault.ledger.assets.get? order.toAsset = some entry)
    (hclosed : entry.depositsEnabled = false) :
    (serve (.convert order) vault).1.result =
      if order.indices.length ≠ order.amounts.length then
        .error (.lengthMismatch order.indices.length order.amounts.length)
      else .error (.depositsDisabled order.toAsset) := by
  have hopen : (liftM (vault.ledger.requireOpen order.toAsset) : Action Unit) vault.ledger =
      .error (.depositsDisabled order.toAsset) := by
    rw [requireOpen_of_closed h hclosed]
    rfl
  have hconvert : Action.convert order (vault.valueOf order.toAsset) vault.ledger =
      if order.indices.length ≠ order.amounts.length then
        .error (.lengthMismatch order.indices.length order.amounts.length)
      else .error (.depositsDisabled order.toAsset) := by
    unfold Action.convert
    by_cases hlengths : order.indices.length ≠ order.amounts.length
    · rw [if_pos hlengths, if_pos hlengths]
      rfl
    · rw [if_neg hlengths, if_neg hlengths]
      exact bind_apply_error.mpr (.inr ⟨_, rfl, bind_apply_error.mpr (.inl hopen)⟩)
  show (vault.convert order).1.result.map Answer.converted = _
  rw [Vault.convert, transact_result hentered, hconvert]
  split <;> rfl

/-! ### After a dewhitelisting -/

/-- A vault that has dewhitelisted an asset is free, and the asset is closed and does not grow. -/
theorem dewhitelist_made (h : (serve (.dewhitelist asset) vault).1.result = .ok .done) :
    (serve (.dewhitelist asset) vault).2.entered = false ∧
      ∃ entry, vault.ledger.assets.get? asset = some entry ∧
        (serve (.dewhitelist asset) vault).2.ledger.assets.get? asset =
          some { entry with depositsEnabled := false, accrualRate := 0 } := by
  cases hentered : vault.entered with
  | true =>
    rw [serve_of_mutates hentered rfl] at h
    cases h
  | false =>
    have hchanged : Changed (Action.dewhitelist asset) vault
        (vault.transact (Action.dewhitelist asset)).1 (serve (.dewhitelist asset) vault).2 :=
      transact_changed hentered
    cases hchanged with
    | refused fault hc hl he =>
      have hresult : (vault.transact (Action.dewhitelist asset)).1.result.map (fun _ => Answer.done) =
          .ok .done := h
      rw [hc] at hresult
      cases hresult
    | made out hmade hc hl he =>
      obtain ⟨entry, hentry, rfl⟩ := dewhitelist_stages hmade
      refine ⟨he, entry, Ledger.asset_eq_ok.mp hentry, ?_⟩
      rw [hl]
      exact SortedMap.get?_insert_self _ _ _

theorem accrualIndex_of_get? {ledger : Ledger} (h : ledger.assets.get? asset = some entry) :
    ledger.accrualIndex asset = .ok entry.accrualIndex := by
  rw [Ledger.accrualIndex, Ledger.asset_eq_ok.mpr h]
  rfl

/-- **Dewhitelisting lasts.**  Once an asset has been dewhitelisted, and whatever is asked of the
vault after that, it is closed: every deposit into it and every conversion into it fails.  Its
index is what it was, as long as nobody asks for a positive rate. -/
theorem dewhitelisting_lasts (vault : Vault) (asset : AssetId)
    (h : (serve (.dewhitelist asset) vault).1.result = .ok .done) (later : List Request) :
    let after := (run later (serve (.dewhitelist asset) vault).2).2
    (∃ entry, after.ledger.assets.get? asset = some entry ∧ entry.depositsEnabled = false) ∧
    (∀ owner quantity, (serve (.deposit owner asset quantity) after).1.result =
      (after.valueOf asset quantity).bind fun _ => .error (.depositsDisabled asset)) ∧
    (∀ order : ConversionOrder, order.toAsset = asset → (serve (.convert order) after).1.result =
      if order.indices.length ≠ order.amounts.length then
        .error (.lengthMismatch order.indices.length order.amounts.length)
      else .error (.depositsDisabled asset)) ∧
    ((∀ rate, 0 < rate → Request.call (.setAccrualRate asset rate) ∉ later) →
      ∃ index, vault.ledger.accrualIndex asset = .ok index ∧
        after.ledger.accrualIndex asset = .ok index) := by
  intro after
  obtain ⟨hentered, entry, hbefore, hfrozen⟩ := dewhitelist_made h
  have hafter : after.entered = false := run_entered later hentered
  obtain ⟨closed, hclosed, hdisabled⟩ := run_closed hfrozen rfl later
  refine ⟨⟨closed, hclosed, hdisabled⟩, deposit_of_closed hafter hclosed hdisabled, ?_, ?_⟩
  · rintro order rfl
    exact convert_of_closed hafter hclosed hdisabled
  · intro hrates
    have hzero (rate : Index) (hmem : .call (.setAccrualRate asset rate) ∈ later) :
        rate.toInt ≤ 0 := by
      rw [← not_lt]
      exact fun hlt => hrates rate hlt hmem
    obtain ⟨still, hstill, hindex⟩ := run_still hfrozen Signed.toInt_zero hzero
    refine ⟨entry.accrualIndex, accrualIndex_of_get? hbefore, ?_⟩
    rw [accrualIndex_of_get? hstill, hindex]

/-- Asset 1 is dewhitelisted while accounts 7 and 8 hold it; a rate of zero is set, a flood begins,
the next epochs are reported, and account 7 withdraws. -/
theorem dewhitelisting_lasts_sample :
    let vault := (run (sampleRequests.take 3) sample).2
    let later : List Request := .call (.setAccrualRate 1 0) :: sampleRequests.drop 3
    let after := (run later (serve (.dewhitelist 1) vault).2).2
    (serve (.dewhitelist 1) vault).1.result = .ok .done ∧
      (∀ rate, 0 < rate → Request.call (.setAccrualRate 1 rate) ∉ later) ∧
      (∃ entry, after.ledger.assets.get? 1 = some entry ∧ entry.depositsEnabled = false) ∧
      (∀ owner quantity, (serve (.deposit owner 1 quantity) after).1.result =
        (after.valueOf 1 quantity).bind fun _ => .error (.depositsDisabled 1)) ∧
      (∀ order : ConversionOrder, order.toAsset = 1 → (serve (.convert order) after).1.result =
        if order.indices.length ≠ order.amounts.length then
          .error (.lengthMismatch order.indices.length order.amounts.length)
        else .error (.depositsDisabled 1)) ∧
      ∃ index, vault.ledger.accrualIndex 1 = .ok index ∧ after.ledger.accrualIndex 1 = .ok index := by
  intro vault later
  have hmade : (serve (.dewhitelist 1) vault).1.result = .ok .done := by decide +kernel
  have hrates : ∀ rate, 0 < rate → Request.call (.setAccrualRate 1 rate) ∉ later := by
    intro rate hpositive hmem
    simp only [later, sampleRequests, List.drop, List.mem_cons, List.not_mem_nil, or_false,
      Request.call.injEq, Call.setAccrualRate.injEq, reduceCtorEq, true_and] at hmem
    subst hmem
    exact absurd hpositive (by decide)
  have hlasts := dewhitelisting_lasts vault 1 hmade later
  exact ⟨hmade, hrates, hlasts.1, hlasts.2.1, hlasts.2.2.1, hlasts.2.2.2 hrates⟩

/-- **The index of a dewhitelisted asset need not stay.**  A new asset is dewhitelisted at index 0;
a rate of 5 is accepted for it, and one epoch later its index is 5. -/
theorem dewhitelisted_asset_grows :
    ¬∀ charter start, genesis charter = .ok start → ∀ requests asset,
      let vault := (run requests start).2
      (serve (.dewhitelist asset) vault).1.result = .ok .done → ∀ later,
        (run later (serve (.dewhitelist asset) vault).2).2.ledger.accrualIndex asset =
          vault.ledger.accrualIndex asset := by
  intro h
  have hequal := h _ _ genesis_sample [.whitelist 1 ⟨10000, 2, none⟩ .unit] 1 (by decide +kernel)
    [.call (.setAccrualRate 1 5), .call (.advanceEpoch ⟨11, false, 0, 0⟩)]
  exact absurd hequal (by decide +kernel)

end Vault

end StalkLedger
