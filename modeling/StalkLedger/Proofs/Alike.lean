import StalkLedger.Proofs.Frame

/-!
# What an account cannot tell apart

Two ledgers are *alike* for an account (`Ledger.Alike`) if it finds the same in both: its record up
to roots, its positions, the terms of the assets, the clock and the floods.  What is counted for
all accounts together (`Ledger.count`) may differ, but then by the same shift from the beginning to
the end: whatever the account adds to a counter in one ledger, it adds in the other.

Roots may differ, because they are minted and burned in proportion to what there is of them.  They
are read in one more place, where the floods of an account are settled.  So they have to be the
same as long as that is still to come in this epoch; once it is done the account goes *abreast* in
both ledgers (`Ledger.Abreast`), and its roots do not matter any more.

There is one lemma for each step, which takes a run of the step on either ledger.
-/

namespace StalkLedger

/-- The account without its roots. -/
def Account.rootless (account : Account) : Account := { account with roots := 0 }

/-! ### Stores that agree -/

namespace SortedMap

variable {μ : Type} [Key μ] {store store' new new' : SortedMap (Slot μ) Position} {slot : Slot μ}
  {id : AccountId}

/-- Two stores keep the same positions of an account. -/
def SameFor (id : AccountId) (store store' : SortedMap (Slot μ) Position) : Prop :=
  ∀ slot : Slot μ, slot.owner = id → store'.get? slot = store.get? slot

/-- They still do when one slot has been changed in both, to the same. -/
theorem SameFor.of_slot (h : SameFor id store store') (hslot : new'.get? slot = new.get? slot)
    (hrest : ∀ other, other ≠ slot → new.get? other = store.get? other)
    (hrest' : ∀ other, other ≠ slot → new'.get? other = store'.get? other) :
    SameFor id new new' := by
  intro other howner
  by_cases heq : other = slot
  · rw [heq, hslot]
  · rw [hrest other heq, hrest' other heq, h other howner]

/-- What is put into both stores keeps them the same for an account, -/
theorem SameFor.put (h : SameFor id store store') (howner : slot.owner = id) {position : Position}
    (hput : store.put slot position = .ok new) (hput' : store'.put slot position = .ok new') :
    SameFor id new new' := by
  refine h.of_slot ?_ (fun _ => get?_of_put hput) fun _ => get?_of_put hput'
  unfold SortedMap.put at hput hput'
  rw [h slot howner] at hput'
  obtain ⟨merged, hmerge, hnew⟩ := bind_eq_ok.mp hput
  obtain ⟨merged', hmerge', hnew'⟩ := bind_eq_ok.mp hput'
  obtain rfl : merged = merged' := Except.ok.inj (hmerge.symm.trans hmerge')
  rw [← pure_eq_ok.mp hnew, ← pure_eq_ok.mp hnew', get?_insert_self, get?_insert_self]

/-- and so does erasing in both. -/
theorem SameFor.erase (h : SameFor id store store') (slot : Slot μ) :
    SameFor id (store.erase slot) (store'.erase slot) := by
  refine h.of_slot ?_ (fun _ hne => get?_erase_of_ne _ hne) fun _ hne => get?_erase_of_ne _ hne
  rw [get?_erase_self, get?_erase_self]

/-- What is taken out of both is worth the same. -/
theorem SameFor.take (h : SameFor id store store') (howner : slot.owner = id)
    {amount value value' : Amount} (htake : store.take slot amount = .ok (value, new))
    (htake' : store'.take slot amount = .ok (value', new')) :
    value' = value ∧ SameFor id new new' := by
  obtain ⟨other, hother, hslot⟩ := take_local (h slot howner) htake
  obtain ⟨rfl, rfl⟩ := Prod.mk.inj (Except.ok.inj (hother.symm.trans htake'))
  exact ⟨rfl, h.of_slot hslot (fun _ => get?_of_take htake) fun _ => get?_of_take hother⟩

end SortedMap

/-- Settling does not look at what has been claimed. -/
theorem FloodBook.settle_unclaimed (book : FloodBook) (roots : Amount) (share : FloodShare) :
    book.unclaimed.settle roots share = book.settle roots share := rfl

namespace Ledger

/-! ### Counters -/

/-- What is counted for all accounts together. -/
inductive Counter
  | stalk
  | earnedPool
  | claimed
  /-- The quantity held in an asset. -/
  | quantity (asset : AssetId)
  /-- The value held in an asset. -/
  | value (asset : AssetId)

/-- How far a counter has come; there is nothing to count for an asset that is not listed. -/
def count (ledger : Ledger) : Counter → ℤ
  | .stalk => ledger.totals.stalk.toNat
  | .earnedPool => ledger.totals.earnedPool.toNat
  | .claimed => ledger.floodBook.totalClaimed.toNat
  | .quantity asset => (ledger.assets.get? asset).elim 0 fun entry => entry.totalQuantity.toNat
  | .value asset => (ledger.assets.get? asset).elim 0 fun entry => entry.totalValue.toNat

/-! ### Alike and abreast -/

/-- An account finds the same in two ledgers, up to roots, and the counters of the second are
shifted.  The roots are the same too, unless the account has been updated in this epoch. -/
structure Alike (id : AccountId) (shift : Counter → ℤ) (ledger ledger' : Ledger) : Prop
    extends SameTerms ledger ledger' where
  epoch : ledger'.epoch = ledger.epoch
  floods : ledger'.floodBook.unclaimed = ledger.floodBook.unclaimed
  account : (ledger'.accounts.get? id).map Account.rootless =
    (ledger.accounts.get? id).map Account.rootless
  roots : ledger.epoch ≤ (ledger.account id).lastUpdate ∨
    (ledger'.account id).roots = (ledger.account id).roots
  deposits : ledger.deposits.SameFor id ledger'.deposits
  legacyDeposits : ledger.legacyDeposits.SameFor id ledger'.legacyDeposits
  counts : ∀ counter, ledger'.count counter = ledger.count counter + shift counter

/-- The ledgers are alike for an account that has been updated in this epoch. -/
structure Abreast (id : AccountId) (shift : Counter → ℤ) (ledger ledger' : Ledger) : Prop
    extends Alike id shift ledger ledger' where
  updated : ledger.epoch ≤ (ledger.account id).lastUpdate

/-- What is read off the entries of an asset without looking at the totals. -/
theorem SameTerms.entry_eq {α : Type} {ledger ledger' : Ledger} (h : SameTerms ledger ledger')
    {asset : AssetId} {entry entry' : Asset} (he : ledger.asset asset = .ok entry)
    (he' : ledger'.asset asset = .ok entry') {f : Asset → α}
    (hf : ∀ entry : Asset, f entry.emptied = f entry) : f entry' = f entry := by
  obtain ⟨other, hother, hsame⟩ := h.entry (asset_eq_ok.mp he)
  rw [asset_eq_ok.mp he', Option.some_inj] at hother
  rw [← hf, hother, hsame, hf]

namespace Alike

variable {id : AccountId} {shift : Counter → ℤ} {ledger ledger' : Ledger}

/-- The record of the account is the same but for the roots. -/
theorem account_rootless (h : Alike id shift ledger ledger') :
    (ledger'.account id).rootless = (ledger.account id).rootless := by
  have hrootless (o : Option Account) :
      (o.getD .fresh).rootless = (o.map Account.rootless).getD .fresh := by
    cases o <;> rfl
  rw [Ledger.account, hrootless, h.account, ← hrootless, Ledger.account]

/-- What is read off the account without looking at the roots. -/
theorem read_eq {α : Type} (h : Alike id shift ledger ledger') {f : Account → α}
    (hf : ∀ account : Account, f account.rootless = f account) :
    f (ledger'.account id) = f (ledger.account id) := by
  rw [← hf, h.account_rootless, hf]

/-- The totals of an asset are shifted like any other counter. -/
theorem totals_eq (h : Alike id shift ledger ledger') {asset : AssetId} {entry entry' : Asset}
    (he : ledger.asset asset = .ok entry) (he' : ledger'.asset asset = .ok entry') :
    (entry'.totalQuantity.toNat : ℤ) = entry.totalQuantity.toNat + shift (.quantity asset) ∧
      (entry'.totalValue.toNat : ℤ) = entry.totalValue.toNat + shift (.value asset) := by
  have hquantity := h.counts (.quantity asset)
  have hvalue := h.counts (.value asset)
  simp only [count, asset_eq_ok.mp he, asset_eq_ok.mp he', Option.elim_some] at hquantity hvalue
  exact ⟨hquantity, hvalue⟩

/-- The account finds the same quantities in the current store, -/
theorem quantityAt (h : Alike id shift ledger ledger') (asset : AssetId) (index : Index) :
    ledger'.quantityAt id asset index = ledger.quantityAt id asset index := by
  rw [Ledger.quantityAt, positionAt, h.deposits _ rfl, Ledger.quantityAt, positionAt]

/-- and in the legacy store. -/
theorem legacyQuantity (h : Alike id shift ledger ledger') (asset : AssetId) (epoch : Epoch) :
    ledger'.legacyQuantity id asset epoch = ledger.legacyQuantity id asset epoch := by
  rw [Ledger.legacyQuantity, legacyPosition, h.legacyDeposits _ rfl, Ledger.legacyQuantity,
    legacyPosition]

/-- Its checkpoints are the same. -/
theorem checkpoint (h : Alike id shift ledger ledger') (asset : AssetId) :
    (ledger'.account id).checkpoint asset = (ledger.account id).checkpoint asset :=
  h.read_eq (f := fun account => account.checkpoint asset) fun _ => rfl

/-- An account entered in both ledgers goes abreast from there. -/
theorem withAccount (h : Alike id shift ledger ledger') {account account' : Account}
    (hsame : account'.rootless = account.rootless) (hupdated : ledger.epoch ≤ account.lastUpdate) :
    Abreast id shift (ledger.withAccount id account) (ledger'.withAccount id account') := by
  have hupdated' : (ledger.withAccount id account).epoch ≤
      ((ledger.withAccount id account).account id).lastUpdate := by
    rw [account_withAccount, if_pos rfl]
    exact hupdated
  refine ⟨⟨⟨h.charter, h.assets⟩, h.epoch, h.floods, ?_, .inl hupdated', h.deposits,
    h.legacyDeposits, h.counts⟩, hupdated'⟩
  rw [Ledger.withAccount, Ledger.withAccount, SortedMap.get?_insert_self,
    SortedMap.get?_insert_self, Option.map_some, Option.map_some, hsame]

/-- Floods are settled on the same roots, or have been settled. -/
theorem update (h : Alike id shift ledger ledger') {out out' : Outcome Unit}
    (hrun : Action.updateAccount id ledger = .ok out)
    (hrun' : Action.updateAccount id ledger' = .ok out') :
    Abreast id shift out.ledger out'.ledger := by
  have hlast : (ledger'.account id).lastUpdate = (ledger.account id).lastUpdate :=
    h.read_eq fun _ => rfl
  have hshare : (ledger'.account id).flood = (ledger.account id).flood :=
    h.read_eq fun _ => rfl
  rw [Action.updateAccount_eq_ok, h.epoch, hlast] at hrun'
  rcases Action.updateAccount_eq_ok.mp hrun with ⟨hdone, rfl⟩ | ⟨hdue, flood, hflood, rfl⟩
  · obtain ⟨-, rfl⟩ := hrun'.resolve_right fun hdue => Nat.not_lt.mpr hdone hdue.1
    exact h.withAccount h.account_rootless hdone
  · obtain ⟨-, flood', hflood', rfl⟩ := hrun'.resolve_left fun hdone => Nat.not_lt.mpr hdone.1 hdue
    have hroots := h.roots.resolve_left (Nat.not_le.mpr hdue)
    rw [← FloodBook.settle_unclaimed, h.floods, FloodBook.settle_unclaimed, hroots, hshare,
      hflood] at hflood'
    obtain rfl := Except.ok.inj hflood'
    refine h.withAccount ?_ (Nat.le_refl _)
    exact congrArg (fun account : Account => { account with flood, lastUpdate := ledger.epoch })
      h.account_rootless

end Alike

namespace Abreast

variable {id : AccountId} {shift : Counter → ℤ} {ledger ledger' : Ledger} {asset : AssetId}

/-! ### Entering something -/

/-- Totals may be entered that are shifted as before, -/
theorem withTotals (h : Abreast id shift ledger ledger') {totals totals' : Totals}
    (hs : (totals'.stalk.toNat : ℤ) = totals.stalk.toNat + shift .stalk)
    (hp : (totals'.earnedPool.toNat : ℤ) = totals.earnedPool.toNat + shift .earnedPool) :
    Abreast id shift { ledger with totals } { ledger' with totals := totals' } where
  charter := h.charter
  assets := h.assets
  epoch := h.epoch
  floods := h.floods
  account := h.account
  roots := h.roots
  deposits := h.deposits
  legacyDeposits := h.legacyDeposits
  counts
    | .stalk => hs
    | .earnedPool => hp
    | .claimed => h.counts .claimed
    | .quantity asset => h.counts (.quantity asset)
    | .value asset => h.counts (.value asset)
  updated := h.updated

/-- and books of floods that agree but for what has been claimed. -/
theorem withFloodBook (h : Abreast id shift ledger ledger') {floodBook floodBook' : FloodBook}
    (hf : floodBook'.unclaimed = floodBook.unclaimed)
    (hc : (floodBook'.totalClaimed.toNat : ℤ) = floodBook.totalClaimed.toNat + shift .claimed) :
    Abreast id shift { ledger with floodBook } { ledger' with floodBook := floodBook' } where
  charter := h.charter
  assets := h.assets
  epoch := h.epoch
  floods := hf
  account := h.account
  roots := h.roots
  deposits := h.deposits
  legacyDeposits := h.legacyDeposits
  counts
    | .stalk => h.counts .stalk
    | .earnedPool => h.counts .earnedPool
    | .claimed => hc
    | .quantity asset => h.counts (.quantity asset)
    | .value asset => h.counts (.value asset)
  updated := h.updated

/-- Stores may be entered that are the same for the account. -/
theorem withStores (h : Abreast id shift ledger ledger')
    {deposits deposits' : SortedMap (Slot Index) Position}
    {legacyDeposits legacyDeposits' : SortedMap (Slot Epoch) Position}
    (hd : deposits.SameFor id deposits') (hl : legacyDeposits.SameFor id legacyDeposits') :
    Abreast id shift { ledger with deposits, legacyDeposits }
      { ledger' with deposits := deposits', legacyDeposits := legacyDeposits' } where
  charter := h.charter
  assets := h.assets
  epoch := h.epoch
  floods := h.floods
  account := h.account
  roots := h.roots
  deposits := hd
  legacyDeposits := hl
  counts
    | .stalk => h.counts .stalk
    | .earnedPool => h.counts .earnedPool
    | .claimed => h.counts .claimed
    | .quantity asset => h.counts (.quantity asset)
    | .value asset => h.counts (.value asset)
  updated := h.updated

/-- An asset is entered with other totals. -/
theorem withAsset (h : Abreast id shift ledger ledger') {entry entry' new new' : Asset}
    (he : ledger.asset asset = .ok entry) (he' : ledger'.asset asset = .ok entry')
    (hn : new.emptied = entry.emptied) (hn' : new'.emptied = entry'.emptied)
    (hq : (new'.totalQuantity.toNat : ℤ) = new.totalQuantity.toNat + shift (.quantity asset))
    (hv : (new'.totalValue.toNat : ℤ) = new.totalValue.toNat + shift (.value asset)) :
    Abreast id shift (ledger.withAsset asset new) (ledger'.withAsset asset new') := by
  have hterms : SameTerms ledger (ledger.withAsset asset new) := .of_insert rfl rfl he hn
  have hterms' : SameTerms ledger' (ledger'.withAsset asset new') := .of_insert rfl rfl he' hn'
  refine ⟨⟨hterms.symm.trans (h.toSameTerms.trans hterms'), h.epoch, h.floods, h.account, h.roots,
    h.deposits, h.legacyDeposits, fun counter => ?_⟩, h.updated⟩
  -- Only the counters of this asset have moved.
  cases counter with
  | stalk => exact h.counts .stalk
  | earnedPool => exact h.counts .earnedPool
  | claimed => exact h.counts .claimed
  | quantity other =>
    by_cases heq : other = asset
    · rw [heq]
      simpa only [count, Ledger.withAsset, SortedMap.get?_insert_self, Option.elim_some] using hq
    · simpa only [count, Ledger.withAsset, SortedMap.get?_insert_of_ne _ heq] using
        h.counts (.quantity other)
  | value other =>
    by_cases heq : other = asset
    · rw [heq]
      simpa only [count, Ledger.withAsset, SortedMap.get?_insert_self, Option.elim_some] using hv
    · simpa only [count, Ledger.withAsset, SortedMap.get?_insert_of_ne _ heq] using
        h.counts (.value other)

/-- A position more moves the totals of its asset alike, -/
theorem take (h : Abreast id shift ledger ledger') {entry entry' new new' : Asset}
    {position : Position} (he : ledger.asset asset = .ok entry)
    (he' : ledger'.asset asset = .ok entry') (hrun : entry.take position = .ok new)
    (hrun' : entry'.take position = .ok new') :
    Abreast id shift (ledger.withAsset asset new) (ledger'.withAsset asset new') := by
  obtain ⟨hquantity, hvalue⟩ := h.totals_eq he he'
  refine h.withAsset he he' (Asset.emptied_of_take hrun) (Asset.emptied_of_take hrun') ?_ ?_
  all_goals
    obtain ⟨quantity, value, hq, hv, rfl⟩ := Asset.take_eq_ok.mp hrun
    obtain ⟨quantity', value', hq', hv', rfl⟩ := Asset.take_eq_ok.mp hrun'
    dsimp only
    omega

/-- and so does a position less. -/
theorem release (h : Abreast id shift ledger ledger') {entry entry' new new' : Asset}
    {position : Position} (he : ledger.asset asset = .ok entry)
    (he' : ledger'.asset asset = .ok entry') (hrun : entry.release position = .ok new)
    (hrun' : entry'.release position = .ok new') :
    Abreast id shift (ledger.withAsset asset new) (ledger'.withAsset asset new') := by
  obtain ⟨hquantity, hvalue⟩ := h.totals_eq he he'
  refine h.withAsset he he' (Asset.emptied_of_release hrun) (Asset.emptied_of_release hrun') ?_ ?_
  all_goals
    obtain ⟨quantity, value, hq, hv, rfl⟩ := Asset.release_eq_ok.mp hrun
    obtain ⟨quantity', value', hq', hv', rfl⟩ := Asset.release_eq_ok.mp hrun'
    dsimp only
    omega

/-! ### Stalk -/

/-- Balances of stalk that were the same are the same, whatever roots go with them. -/
theorem withBalances (h : Abreast id shift ledger ledger') (stalk roots roots' : Amount) :
    Abreast id shift (ledger.withAccount id { ledger.account id with stalk, roots })
      (ledger'.withAccount id { ledger'.account id with stalk, roots := roots' }) :=
  h.withAccount (congrArg (fun account : Account => { account with stalk }) h.account_rootless)
    h.updated

/-- The same checkpoint is entered in both records. -/
theorem withCheckpoint (h : Abreast id shift ledger ledger') (asset : AssetId)
    (checkpoint : Checkpoint) :
    Abreast id shift
      (ledger.withAccount id ((ledger.account id).withCheckpoint asset checkpoint))
      (ledger'.withAccount id ((ledger'.account id).withCheckpoint asset checkpoint)) :=
  h.withAccount (congrArg (·.withCheckpoint asset checkpoint) h.account_rootless) h.updated

/-- Stalk is credited in both ledgers; the roots that go with it may differ, -/
theorem creditStalk (h : Abreast id shift ledger ledger') {stalk roots roots' : Amount}
    {out out' : Outcome Unit} (hrun : Action.creditStalk id stalk roots ledger = .ok out)
    (hrun' : Action.creditStalk id stalk roots' ledger' = .ok out') :
    Abreast id shift out.ledger out'.ledger := by
  obtain ⟨held, kept, _, hheld, -, rfl⟩ := Action.creditStalk_spec hrun
  obtain ⟨held', kept', _, hheld', -, rfl⟩ := Action.creditStalk_spec hrun'
  have hstalk : (ledger'.account id).stalk = (ledger.account id).stalk := h.read_eq fun _ => rfl
  obtain rfl : held = held' := Unsigned.ext (by rw [hheld, hheld', hstalk])
  exact h.withBalances held kept kept'

/-- also where stalk is taken off. -/
theorem debitStalk (h : Abreast id shift ledger ledger') {stalk roots roots' : Amount}
    {out out' : Outcome Unit} (hrun : Action.debitStalk id stalk roots ledger = .ok out)
    (hrun' : Action.debitStalk id stalk roots' ledger' = .ok out') :
    Abreast id shift out.ledger out'.ledger := by
  obtain ⟨held, kept, _, hheld, -, rfl⟩ := Action.debitStalk_spec hrun
  obtain ⟨held', kept', _, hheld', -, rfl⟩ := Action.debitStalk_spec hrun'
  have hstalk : (ledger'.account id).stalk = (ledger.account id).stalk := h.read_eq fun _ => rfl
  rw [hstalk, ← hheld] at hheld'
  obtain rfl : held = held' := Unsigned.ext (Nat.add_right_cancel hheld'.symm)
  exact h.withBalances held kept kept'

/-- The roots that are minted may differ, -/
theorem mintStalk (h : Abreast id shift ledger ledger') {stalk : Amount} {out out' : Outcome Amount}
    (hrun : Action.mintStalk id stalk ledger = .ok out)
    (hrun' : Action.mintStalk id stalk ledger' = .ok out') :
    Abreast id shift out.ledger out'.ledger := by
  by_cases hzero : stalk = 0
  · rw [Action.mintStalk, if_pos hzero] at hrun hrun'
    obtain rfl := Action.pure_eq_ok.mp hrun
    obtain rfl := Action.pure_eq_ok.mp hrun'
    exact h
  obtain ⟨_, totals, credited, -, htotals, hcredit, rfl⟩ :=
    (Action.mintStalk_eq_ok hzero).mp hrun
  obtain ⟨_, totals', credited', -, htotals', hcredit', rfl⟩ :=
    (Action.mintStalk_eq_ok hzero).mp hrun'
  obtain ⟨hstalk, -, hpool⟩ := Totals.credit_eq_ok.mp htotals
  obtain ⟨hstalk', -, hpool'⟩ := Totals.credit_eq_ok.mp htotals'
  have hcount : (ledger'.totals.stalk.toNat : ℤ) = ledger.totals.stalk.toNat + shift .stalk :=
    h.counts .stalk
  have htotal : Abreast id shift { ledger with totals } { ledger' with totals := totals' } :=
    h.withTotals (by omega) (by rw [hpool, hpool']; exact h.counts .earnedPool)
  exact htotal.creditStalk hcredit hcredit'

/-- and so may those that are burned. -/
theorem burnStalk (h : Abreast id shift ledger ledger') {stalk : Amount} {out out' : Outcome Amount}
    (hrun : Action.burnStalk id stalk ledger = .ok out)
    (hrun' : Action.burnStalk id stalk ledger' = .ok out') :
    Abreast id shift out.ledger out'.ledger := by
  by_cases hzero : stalk = 0
  · rw [Action.burnStalk, if_pos hzero] at hrun hrun'
    obtain rfl := Action.pure_eq_ok.mp hrun
    obtain rfl := Action.pure_eq_ok.mp hrun'
    exact h
  obtain ⟨_, totals, debited, -, htotals, hdebit, rfl⟩ := (Action.burnStalk_eq_ok hzero).mp hrun
  obtain ⟨_, totals', debited', -, htotals', hdebit', rfl⟩ :=
    (Action.burnStalk_eq_ok hzero).mp hrun'
  obtain ⟨hstalk, -, hpool⟩ := Totals.debit_eq_ok.mp htotals
  obtain ⟨hstalk', -, hpool'⟩ := Totals.debit_eq_ok.mp htotals'
  have hcount : (ledger'.totals.stalk.toNat : ℤ) = ledger.totals.stalk.toNat + shift .stalk :=
    h.counts .stalk
  have htotal : Abreast id shift { ledger with totals } { ledger' with totals := totals' } :=
    h.withTotals (by omega) (by rw [hpool, hpool']; exact h.counts .earnedPool)
  exact htotal.debitStalk hdebit hdebit'

/-! ### Value held -/

/-- The same growth is credited in both, since checkpoint and tip are the same. -/
theorem creditGrowth (h : Abreast id shift ledger ledger') {out out' : Outcome Amount}
    (hrun : Action.creditGrowth id asset ledger = .ok out)
    (hrun' : Action.creditGrowth id asset ledger' = .ok out') :
    out'.result = out.result ∧ Abreast id shift out.ledger out'.ledger := by
  obtain ⟨entry, grown, minted, hentry, hgrown, hmint, rfl⟩ := Action.creditGrowth_spec hrun
  obtain ⟨entry', grown', minted', hentry', hgrown', hmint', rfl⟩ := Action.creditGrowth_spec hrun'
  have htip : entry'.accrualIndex = entry.accrualIndex :=
    h.entry_eq hentry hentry' fun _ => rfl
  rw [h.checkpoint, htip] at hgrown' hmint'
  obtain rfl : grown = grown' := Except.ok.inj (hgrown.symm.trans hgrown')
  have hminted := (h.withCheckpoint asset _).mintStalk hmint hmint'
  exact ⟨rfl, hminted⟩

/-- Value is booked on the same checkpoint, -/
theorem creditValue (h : Abreast id shift ledger ledger') {value : Amount} {out out' : Outcome Unit}
    (hrun : Action.creditValue id asset value ledger = .ok out)
    (hrun' : Action.creditValue id asset value ledger' = .ok out') :
    Abreast id shift out.ledger out'.ledger := by
  obtain ⟨held, hheld, rfl⟩ := Action.creditValue_eq_ok.mp hrun
  obtain ⟨held', hheld', rfl⟩ := Action.creditValue_eq_ok.mp hrun'
  rw [h.checkpoint] at hheld' ⊢
  obtain rfl : held = held' := Unsigned.ext (hheld.trans hheld'.symm)
  exact h.withCheckpoint asset _

/-- or taken off it. -/
theorem debitValue (h : Abreast id shift ledger ledger') {value : Amount} {out out' : Outcome Unit}
    (hrun : Action.debitValue id asset value ledger = .ok out)
    (hrun' : Action.debitValue id asset value ledger' = .ok out') :
    Abreast id shift out.ledger out'.ledger := by
  obtain ⟨held, hheld, rfl⟩ := Action.debitValue_eq_ok.mp hrun
  obtain ⟨held', hheld', rfl⟩ := Action.debitValue_eq_ok.mp hrun'
  rw [h.checkpoint] at hheld' ⊢
  obtain rfl : held = held' := Unsigned.ext (Nat.add_right_cancel (hheld.trans hheld'.symm))
  exact h.withCheckpoint asset _

/-! ### Positions -/

/-- A position that is added to both raises the totals of its asset alike. -/
theorem addPositionAt (h : Abreast id shift ledger ledger') {slot : Slot Index}
    (howner : slot.owner = id) {position : Position} {out out' : Outcome Unit}
    (hrun : Action.addPositionAt slot position ledger = .ok out)
    (hrun' : Action.addPositionAt slot position ledger' = .ok out') :
    Abreast id shift out.ledger out'.ledger := by
  obtain ⟨deposits, entry, new, -, -, -, hput, hentry, htake, rfl⟩ :=
    Action.addPositionAt_eq_ok.mp hrun
  obtain ⟨deposits', entry', new', -, -, -, hput', hentry', htake', rfl⟩ :=
    Action.addPositionAt_eq_ok.mp hrun'
  have hstored : Abreast id shift { ledger with deposits } { ledger' with deposits := deposits' } :=
    h.withStores (h.deposits.put howner hput hput') h.legacyDeposits
  exact hstored.take hentry hentry' htake htake'

/-- The current store gives the same, -/
theorem takeCurrent (h : Abreast id shift ledger ledger') {slot : Slot Index}
    (howner : slot.owner = id) {amount value value' : Amount} {taken taken' : Ledger}
    (hrun : ledger.takeCurrent slot amount = .ok (value, taken))
    (hrun' : ledger'.takeCurrent slot amount = .ok (value', taken')) :
    value' = value ∧ Abreast id shift taken taken' := by
  obtain ⟨deposits, htake, rfl⟩ := takeCurrent_eq_ok.mp hrun
  obtain ⟨deposits', htake', rfl⟩ := takeCurrent_eq_ok.mp hrun'
  obtain ⟨hvalue, hdeposits⟩ := h.deposits.take howner htake htake'
  exact ⟨hvalue, h.withStores hdeposits h.legacyDeposits⟩

/-- and so does the legacy store, -/
theorem takeLegacy (h : Abreast id shift ledger ledger') {slot : Slot Epoch}
    (howner : slot.owner = id) {amount value value' : Amount} {taken taken' : Ledger}
    (hrun : ledger.takeLegacy slot amount = .ok (value, taken))
    (hrun' : ledger'.takeLegacy slot amount = .ok (value', taken')) :
    value' = value ∧ Abreast id shift taken taken' := by
  obtain ⟨legacyDeposits, htake, rfl⟩ := takeLegacy_eq_ok.mp hrun
  obtain ⟨legacyDeposits', htake', rfl⟩ := takeLegacy_eq_ok.mp hrun'
  obtain ⟨hvalue, hlegacy⟩ := h.legacyDeposits.take howner htake htake'
  exact ⟨hvalue, h.withStores h.deposits hlegacy⟩

/-- and both together. -/
theorem takeBoth (h : Abreast id shift ledger ledger') {slot : Slot Index} {epoch : Epoch}
    (howner : slot.owner = id) {held shortfall value value' : Amount} {taken taken' : Ledger}
    (hrun : ledger.takeBoth slot epoch held shortfall = .ok (value, taken))
    (hrun' : ledger'.takeBoth slot epoch held shortfall = .ok (value', taken')) :
    value' = value ∧ Abreast id shift taken taken' := by
  simp only [Ledger.takeBoth, bind_eq_ok, Prod.exists, pure_eq_ok, Prod.mk.injEq] at hrun hrun'
  obtain ⟨current, between, hcurrent, legacy, after, hlegacy, sum, hsum, rfl, rfl⟩ := hrun
  obtain ⟨current', between', hcurrent', legacy', after', hlegacy', sum', hsum', rfl, rfl⟩ := hrun'
  obtain ⟨rfl, hbetween⟩ := h.takeCurrent howner hcurrent hcurrent'
  obtain ⟨rfl, hafter⟩ := hbetween.takeLegacy howner hlegacy hlegacy'
  exact ⟨Except.ok.inj (hsum'.symm.trans hsum), hafter⟩

/-- Both ledgers decide alike which stores pay, -/
theorem draw (h : Abreast id shift ledger ledger') {index : Index} {amount : Amount}
    {entry entry' : Asset} (he : ledger.asset asset = .ok entry)
    (he' : ledger'.asset asset = .ok entry') :
    ledger'.draw entry' ⟨id, asset, index⟩ amount = ledger.draw entry ⟨id, asset, index⟩ amount := by
  have hlocate : entry'.locate = entry.locate := h.entry_eq he he' fun _ => rfl
  have hexcess : entry'.grandfathered = entry.grandfathered := h.entry_eq he he' fun _ => rfl
  simp only [Ledger.draw, h.quantityAt, h.legacyQuantity, h.charter, hlocate, hexcess]

/-- and draw on the same ones. -/
theorem takeAt (h : Abreast id shift ledger ledger') {index : Index} {amount value value' : Amount}
    {entry entry' : Asset} {taken taken' : Ledger} (he : ledger.asset asset = .ok entry)
    (he' : ledger'.asset asset = .ok entry')
    (hrun : ledger.takeAt entry ⟨id, asset, index⟩ amount = .ok (value, taken))
    (hrun' : ledger'.takeAt entry' ⟨id, asset, index⟩ amount = .ok (value', taken')) :
    value' = value ∧ Abreast id shift taken taken' := by
  rw [Ledger.takeAt_eq] at hrun hrun'
  rw [h.draw he he'] at hrun'
  obtain ⟨draw, hdraw, hpay⟩ := bind_eq_ok.mp hrun
  obtain ⟨draw', hdraw', hpay'⟩ := bind_eq_ok.mp hrun'
  obtain rfl := Except.ok.inj (hdraw.symm.trans hdraw')
  cases draw with
  | current => exact h.takeCurrent rfl hpay hpay'
  | legacy epoch => exact h.takeLegacy rfl hpay hpay'
  | both epoch =>
    simp only [Ledger.pay, h.quantityAt] at hpay hpay'
    exact h.takeBoth rfl hpay hpay'

/-- A removal takes the same value from the same stores. -/
theorem removePosition (h : Abreast id shift ledger ledger') {index : Index} {amount : Amount}
    {out out' : Outcome Amount}
    (hrun : Action.removePosition ⟨id, asset, index⟩ amount ledger = .ok out)
    (hrun' : Action.removePosition ⟨id, asset, index⟩ amount ledger' = .ok out') :
    out'.result = out.result ∧ Abreast id shift out.ledger out'.ledger := by
  by_cases hzero : amount = 0
  · rw [hzero] at hrun hrun'
    obtain ⟨-, rfl⟩ := Action.removePosition_zero_eq_ok.mp hrun
    obtain ⟨-, rfl⟩ := Action.removePosition_zero_eq_ok.mp hrun'
    exact ⟨rfl, h⟩
  obtain ⟨value, taken, entry, new, -, hentry, htake, hrelease, rfl⟩ :=
    (Action.removePosition_eq_ok hzero).mp hrun
  obtain ⟨value', taken', entry', new', -, hentry', htake', hrelease', rfl⟩ :=
    (Action.removePosition_eq_ok hzero).mp hrun'
  obtain ⟨rfl, htaken⟩ := h.takeAt hentry hentry' htake htake'
  -- The stores have changed since the entries were read, but not the assets.
  have hentry : taken.asset asset = .ok entry := by
    obtain ⟨_, _, rfl⟩ := (taken_of_takeAt htake).frame
    exact hentry
  have hentry' : taken'.asset asset = .ok entry' := by
    obtain ⟨_, _, rfl⟩ := (taken_of_takeAt htake').frame
    exact hentry'
  exact ⟨rfl, htaken.release hentry hentry' hrelease hrelease'⟩

/-- So do several, and the sums of what they took are the same. -/
theorem removeEach (h : Abreast id shift ledger ledger') {entries : List (Index × Amount)}
    {removal : Removal} {out out' : Outcome Removal}
    (hrun : Action.removeEach id asset entries removal ledger = .ok out)
    (hrun' : Action.removeEach id asset entries removal ledger' = .ok out') :
    out'.result = out.result ∧ Abreast id shift out.ledger out'.ledger := by
  induction entries generalizing removal ledger ledger' out out' with
  | nil =>
    obtain rfl := Action.pure_eq_ok.mp hrun
    obtain rfl := Action.pure_eq_ok.mp hrun'
    exact ⟨rfl, h⟩
  | cons entry entries ih =>
    obtain ⟨first, rest, hfirst, hnext, rfl⟩ := Action.bind_apply_ok.mp hrun
    obtain ⟨first', rest', hfirst', hnext', rfl⟩ := Action.bind_apply_ok.mp hrun'
    obtain ⟨hvalue, hremoved⟩ := h.removePosition hfirst hfirst'
    obtain ⟨extended, hextend, hrest⟩ := Action.lift_bind.mp hnext
    obtain ⟨extended', hextend', hrest'⟩ := Action.lift_bind.mp hnext'
    rw [hvalue] at hextend'
    obtain rfl : extended = extended' := Except.ok.inj (hextend.symm.trans hextend')
    have hall := ih hremoved hrest hrest'
    exact hall

/-- An entry is there to be moved in both ledgers or in neither. -/
theorem migrateEpoch (h : Abreast id shift ledger ledger') {terms : LegacyTerms} {epoch : Epoch}
    {out out' : Outcome (Option Index)}
    (hrun : Action.migrateEpoch id asset terms epoch ledger = .ok out)
    (hrun' : Action.migrateEpoch id asset terms epoch ledger' = .ok out') :
    out'.result = out.result ∧ Abreast id shift out.ledger out'.ledger := by
  obtain ⟨-, hstages'⟩ := Action.migrateEpoch_stages hrun'
  rw [h.legacyDeposits _ rfl] at hstages'
  obtain ⟨-, ⟨hnone, rfl⟩ | ⟨position, index, deposits, hsome, hindex, hput, rfl⟩⟩ :=
    Action.migrateEpoch_stages hrun
  · obtain ⟨-, rfl⟩ | ⟨position', index', deposits', hsome', -⟩ := hstages'
    · exact ⟨rfl, h⟩
    · rw [hnone] at hsome'
      cases hsome'
  · obtain ⟨hnone', -⟩ | ⟨position', index', deposits', hsome', hindex', hput', rfl⟩ := hstages'
    · rw [hsome] at hnone'
      cases hnone'
    obtain rfl : position = position' := Option.some.inj (hsome.symm.trans hsome')
    rw [h.charter, hindex] at hindex'
    obtain rfl := Except.ok.inj hindex'
    exact ⟨rfl, h.withStores (h.deposits.put rfl hput hput') (h.legacyDeposits.erase _)⟩

/-- So it is with several. -/
theorem migrateEach (h : Abreast id shift ledger ledger') {terms : LegacyTerms}
    {epochs : List Epoch} {out out' : Outcome (List Index)}
    (hrun : Action.migrateEach id asset terms epochs ledger = .ok out)
    (hrun' : Action.migrateEach id asset terms epochs ledger' = .ok out') :
    out'.result = out.result ∧ Abreast id shift out.ledger out'.ledger := by
  induction epochs generalizing ledger ledger' out out' with
  | nil =>
    obtain rfl := Action.pure_eq_ok.mp hrun
    obtain rfl := Action.pure_eq_ok.mp hrun'
    exact ⟨rfl, h⟩
  | cons epoch epochs ih =>
    obtain ⟨moved, rest, hmove, hnext, rfl⟩ := Action.bind_apply_ok.mp hrun
    obtain ⟨moved', rest', hmove', hnext', rfl⟩ := Action.bind_apply_ok.mp hrun'
    obtain ⟨others, hothers, rfl⟩ := Action.bind_pure_eq_ok.mp hnext
    obtain ⟨others', hothers', rfl⟩ := Action.bind_pure_eq_ok.mp hnext'
    obtain ⟨hfirst, hmoved⟩ := h.migrateEpoch hmove hmove'
    obtain ⟨hrest, hall⟩ := ih hmoved hothers hothers'
    exact ⟨by rw [hfirst, hrest], hall⟩

end Abreast

end Ledger

end StalkLedger
