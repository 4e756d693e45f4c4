import StalkLedger.Proofs.Alike

/-!
# Operations of different accounts

Mowing, deposits, withdrawals, conversions, imports, migrations and claims are each made by one
account (`Call.operator`).  Two of them by different accounts can be made in either order.  Only
roots can tell the orders apart, since roots are minted and burned in the ratio of the totals,
which the first of the two has moved.

* An operation leads from ledgers that are alike for its account to ledgers that are alike, and
  gives the same result up to roots (`Vault.serve_alike`).
* The ledgers before and after an operation are alike for every other account, shifted by what it
  has counted (`Ledger.Frame.alike`).

So each operation does the same before the other as after it, and leaves alone what the other has
done (`Ledger.Crossing.sameButRoots`).

**Commutation** (`Vault.operations_commute`).  Both orders lead to the same ledger and to the same
answers, up to the roots of the two accounts and the total of roots.
-/

namespace StalkLedger

/-! ### Answers without roots -/

/-- The receipt without the roots that were minted. -/
def DepositReceipt.rootless (receipt : DepositReceipt) : DepositReceipt :=
  { receipt with roots := 0 }

/-- The receipt without the roots that were burned. -/
def WithdrawReceipt.rootless (receipt : WithdrawReceipt) : WithdrawReceipt :=
  { receipt with rootsRemoved := 0 }

/-- The answer without the roots that a receipt counts. -/
def Answer.rootless : Answer → Answer
  | .deposited receipt => .deposited receipt.rootless
  | .withdrawn receipt => .withdrawn receipt.rootless
  | answer => answer

namespace Ledger

variable {id : AccountId} {shift : Counter → ℤ} {ledger ledger' : Ledger} {asset : AssetId}

/-! ### Flows -/

/-- An entry that is entered is read back. -/
theorem asset_withAsset (ledger : Ledger) (id : AssetId) (entry : Asset) :
    (ledger.withAsset id entry).asset id = .ok entry :=
  asset_eq_ok.mpr (SortedMap.get?_insert_self _ _ _)

/-- Each flow of the account does the same in both ledgers, and answers the same up to roots.  The
first is mowing. -/
theorem Alike.mow (h : Alike id shift ledger ledger') {out out' : Outcome Amount}
    (hrun : Action.mow id asset ledger = .ok out) (hrun' : Action.mow id asset ledger' = .ok out') :
    out'.result = out.result ∧ Abreast id shift out.ledger out'.ledger := by
  obtain ⟨updated, hupdate, hgrowth⟩ := Action.mow_stages hrun
  obtain ⟨updated', hupdate', hgrowth'⟩ := Action.mow_stages hrun'
  exact (h.update hupdate hupdate').creditGrowth hgrowth hgrowth'

/-- A deposit mints the same stalk. -/
theorem Alike.deposit (h : Alike id shift ledger ledger') {quantity value : Amount}
    {out out' : Outcome DepositReceipt}
    (hrun : Action.deposit id asset quantity value ledger = .ok out)
    (hrun' : Action.deposit id asset quantity value ledger' = .ok out') :
    out'.result.rootless = out.result.rootless ∧ Abreast id shift out.ledger out'.ledger := by
  obtain ⟨mown, tip, added, booked, entry, stalk, minted, -, hmow, htip, hadd, hbook, hentry,
    hstalk, hmint, rfl⟩ := Action.deposit_stages hrun
  obtain ⟨mown', tip', added', booked', entry', stalk', minted', -, hmow', htip', hadd', hbook',
    hentry', hstalk', hmint', rfl⟩ := Action.deposit_stages hrun'
  obtain ⟨-, hmown⟩ := h.mow hmow hmow'
  have hindex : tip'.accrualIndex = tip.accrualIndex := hmown.entry_eq htip htip' fun _ => rfl
  rw [hindex] at hadd' ⊢
  have hbooked := (hmown.addPositionAt rfl hadd hadd').creditValue hbook hbook'
  have hrate : entry'.stalkPerValue = entry.stalkPerValue :=
    hbooked.entry_eq hentry hentry' fun _ => rfl
  rw [hrate, hstalk] at hstalk'
  obtain rfl := Except.ok.inj hstalk'
  exact ⟨rfl, hbooked.mintStalk hmint hmint'⟩

/-- Removed positions carry the same stalk. -/
theorem Abreast.retiring (h : Abreast id shift ledger ledger') {indices : List Index}
    {amounts : List Amount} {removed removed' : Outcome Removal} {entry entry' : Asset}
    {carried carried' : CarriedStalk} {debited debited' : Outcome Unit}
    {burned burned' : Outcome Amount}
    (hremove : Action.removeMultiple id asset indices amounts ledger = .ok removed)
    (hremove' : Action.removeMultiple id asset indices amounts ledger' = .ok removed')
    (hentry : removed.ledger.asset asset = .ok entry)
    (hentry' : removed'.ledger.asset asset = .ok entry')
    (hcarried : entry.stalkOf indices removed.result = .ok carried)
    (hcarried' : entry'.stalkOf indices removed'.result = .ok carried')
    (hdebit : Action.debitValue id asset removed.result.totalValue removed.ledger = .ok debited)
    (hdebit' : Action.debitValue id asset removed'.result.totalValue removed'.ledger = .ok debited')
    (hburn : Action.burnStalk id carried.stalk debited.ledger = .ok burned)
    (hburn' : Action.burnStalk id carried'.stalk debited'.ledger = .ok burned') :
    removed'.result = removed.result ∧ carried' = carried ∧
      Abreast id shift burned.ledger burned'.ledger := by
  obtain ⟨hremoval, hremoved⟩ := h.removeEach (Action.removeMultiple_stages hremove).2
    (Action.removeMultiple_stages hremove').2
  have hstalkOf : entry'.stalkOf = entry.stalkOf := hremoved.entry_eq hentry hentry' fun _ => rfl
  rw [hremoval, hstalkOf, hcarried] at hcarried'
  obtain rfl := Except.ok.inj hcarried'
  rw [hremoval] at hdebit'
  exact ⟨hremoval, rfl, (hremoved.debitValue hdebit hdebit').burnStalk hburn hburn'⟩

/-- A withdrawal takes the same value, with the same stalk. -/
theorem Alike.withdraw (h : Alike id shift ledger ledger') {indices : List Index}
    {amounts : List Amount} {out out' : Outcome WithdrawReceipt}
    (hrun : Action.withdraw id asset indices amounts ledger = .ok out)
    (hrun' : Action.withdraw id asset indices amounts ledger' = .ok out') :
    out'.result.rootless = out.result.rootless ∧ Abreast id shift out.ledger out'.ledger := by
  obtain ⟨mown, removed, entry, carried, debited, burned, hmow, hremove, hentry, hcarried, hdebit,
    hburn, rfl⟩ := Action.withdraw_stages hrun
  obtain ⟨mown', removed', entry', carried', debited', burned', hmow', hremove', hentry', hcarried',
    hdebit', hburn', rfl⟩ := Action.withdraw_stages hrun'
  obtain ⟨-, hmown⟩ := h.mow hmow hmow'
  obtain ⟨hremoval, rfl, hburned⟩ := hmown.retiring hremove hremove' hentry hentry' hcarried
    hcarried' hdebit hdebit' hburn hburn'
  rw [hremoval]
  exact ⟨rfl, hburned⟩

/-- An import enters its position at the same index. -/
theorem Alike.importLegacy (h : Alike id shift ledger ledger') {epoch : Epoch}
    {quantity value : Amount} {out out' : Outcome Index}
    (hrun : Action.importLegacy id asset epoch quantity value ledger = .ok out)
    (hrun' : Action.importLegacy id asset epoch quantity value ledger' = .ok out') :
    out'.result = out.result ∧ Abreast id shift out.ledger out'.ledger := by
  obtain ⟨terms, index, mown, legacyDeposits, entry, new, booked, base, grown, stalk, minted, -,
    hterms, -, -, -, hindex, hmow, hput, hentry, htake, hbook, hbase, hgrown, hstalk, hmint, -,
    rfl⟩ := Action.importLegacy_stages hrun
  obtain ⟨terms', index', mown', legacyDeposits', entry', new', booked', base', grown', stalk',
    minted', -, hterms', -, -, -, hindex', hmow', hput', hentry', htake', hbook', hbase', hgrown',
    hstalk', hmint', -, rfl⟩ := Action.importLegacy_stages hrun'
  obtain rfl : terms = terms' := Except.ok.inj ((h.legacyTerms hterms).symm.trans hterms')
  rw [h.charter, hindex] at hindex'
  obtain rfl := Except.ok.inj hindex'
  obtain ⟨-, hmown⟩ := h.mow hmow hmow'
  have hstored : Abreast id shift { mown.ledger with legacyDeposits }
      { mown'.ledger with legacyDeposits := legacyDeposits' } :=
    hmown.withStores hmown.deposits (hmown.legacyDeposits.put rfl hput hput')
  have htaken := hstored.take hentry hentry' htake htake'
  have hbooked := htaken.creditValue hbook hbook'
  -- Rate and tip are read off the entry that has taken the position.
  have hrate : new'.stalkPerValue = new.stalkPerValue :=
    htaken.entry_eq (asset_withAsset _ _ _) (asset_withAsset _ _ _) fun _ => rfl
  have htip : new'.accrualIndex = new.accrualIndex :=
    htaken.entry_eq (asset_withAsset _ _ _) (asset_withAsset _ _ _) fun _ => rfl
  rw [hrate, hbase] at hbase'
  obtain rfl := Except.ok.inj hbase'
  rw [htip, hgrown] at hgrown'
  obtain rfl := Except.ok.inj hgrown'
  obtain rfl : stalk = stalk' := Except.ok.inj (hstalk.symm.trans hstalk')
  exact ⟨rfl, hbooked.mintStalk hmint hmint'⟩

/-- A migration finds the same entries to move. -/
theorem Alike.migrate (h : Alike id shift ledger ledger') {epochs : List Epoch}
    {out out' : Outcome (List Index)} (hrun : Action.migrate id asset epochs ledger = .ok out)
    (hrun' : Action.migrate id asset epochs ledger' = .ok out') :
    out'.result = out.result ∧ Abreast id shift out.ledger out'.ledger := by
  obtain ⟨terms, mown, moved, hterms, hmow, hmove, rfl⟩ := Action.migrate_stages hrun
  obtain ⟨terms', mown', moved', hterms', hmow', hmove', rfl⟩ := Action.migrate_stages hrun'
  obtain rfl : terms = terms' := Except.ok.inj ((h.legacyTerms hterms).symm.trans hterms')
  have hmoved := (h.mow hmow hmow').2.migrateEach hmove hmove'
  exact hmoved

/-- A claim is paid the same. -/
theorem Alike.claimFlood (h : Alike id shift ledger ledger') {out out' : Outcome Amount}
    (hrun : Action.claimFlood id ledger = .ok out)
    (hrun' : Action.claimFlood id ledger' = .ok out') :
    out'.result = out.result ∧ Abreast id shift out.ledger out'.ledger := by
  obtain ⟨updated, claimed, hupdate, -, hclaim, rfl⟩ := Action.claimFlood_stages hrun
  obtain ⟨updated', claimed', hupdate', -, hclaim', rfl⟩ := Action.claimFlood_stages hrun'
  have hupdated := h.update hupdate hupdate'
  have hshare : (updated'.ledger.account id).flood = (updated.ledger.account id).flood :=
    hupdated.read_eq fun _ => rfl
  rw [hshare, Unsigned.add_eq_ok] at hclaim'
  rw [Unsigned.add_eq_ok] at hclaim
  have hcount : (updated'.ledger.floodBook.totalClaimed.toNat : ℤ) =
      updated.ledger.floodBook.totalClaimed.toNat + shift .claimed := hupdated.counts .claimed
  have hemptied : Abreast id shift
      (updated.ledger.withAccount id { updated.ledger.account id with
        flood := { (updated.ledger.account id).flood with claimable := 0 } })
      (updated'.ledger.withAccount id { updated'.ledger.account id with
        flood := { (updated.ledger.account id).flood with claimable := 0 } }) :=
    hupdated.withAccount (congrArg (fun account : Account => { account with
      flood := { (updated.ledger.account id).flood with claimable := 0 } })
      hupdated.account_rootless) hupdated.updated
  rw [hshare]
  exact ⟨rfl, hemptied.withFloodBook hupdated.floods (by dsimp only; omega)⟩

/-! ### Conversions -/

variable {order : ConversionOrder}

/-- The same is retired, with the same stalk, -/
theorem Abreast.retire (h : Abreast order.owner shift ledger ledger')
    {out out' : Outcome Action.Retired} (hrun : Action.retire order ledger = .ok out)
    (hrun' : Action.retire order ledger' = .ok out') :
    out'.result = out.result ∧ Abreast order.owner shift out.ledger out'.ledger := by
  obtain ⟨removed, entry, carried, debited, burned, hremove, hentry, hcarried, hdebit, hburn,
    rfl⟩ := Action.retire_stages hrun
  obtain ⟨removed', entry', carried', debited', burned', hremove', hentry', hcarried', hdebit',
    hburn', rfl⟩ := Action.retire_stages hrun'
  obtain ⟨hremoval, rfl, hburned⟩ := h.retiring hremove hremove' hentry hentry' hcarried hcarried'
    hdebit hdebit' hburn hburn'
  rw [hremoval]
  exact ⟨rfl, hburned⟩

/-- and what comes of it is entered at the same index. -/
theorem Abreast.enter (h : Abreast order.owner shift ledger ledger') {retired : Action.Retired}
    {value : Amount} {out out' : Outcome ConversionReceipt}
    (hrun : Action.enter order retired value ledger = .ok out)
    (hrun' : Action.enter order retired value ledger' = .ok out') :
    out'.result = out.result ∧ Abreast order.owner shift out.ledger out'.ledger := by
  obtain ⟨target, backdate, forfeited, base, stalk, added, booked, minted, -, htarget, hbackdate,
    hforfeited, hbase, hstalk, hadd, hbook, hmint, -, rfl⟩ := Action.enter_stages hrun
  obtain ⟨target', backdate', forfeited', base', stalk', added', booked', minted', -, htarget',
    hbackdate', hforfeited', hbase', hstalk', hadd', hbook', hmint', -, rfl⟩ :=
    Action.enter_stages hrun'
  have htip : target'.accrualIndex = target.accrualIndex := h.entry_eq htarget htarget' fun _ => rfl
  have hrate : target'.stalkPerValue = target.stalkPerValue :=
    h.entry_eq htarget htarget' fun _ => rfl
  rw [htip, hbackdate] at hbackdate'
  obtain rfl := Except.ok.inj hbackdate'
  obtain rfl : forfeited = forfeited' := Except.ok.inj (hforfeited.symm.trans hforfeited')
  rw [hrate, hbase] at hbase'
  obtain rfl := Except.ok.inj hbase'
  obtain rfl : stalk = stalk' := Except.ok.inj (hstalk.symm.trans hstalk')
  have hbooked := (h.addPositionAt rfl hadd hadd').creditValue hbook hbook'
  exact ⟨rfl, hbooked.mintStalk hmint hmint'⟩

/-- A conversion at the same valuation carries over the same growth. -/
theorem Alike.convert (h : Alike order.owner shift ledger ledger')
    {valueOf : Amount → Except Fault Amount} {out out' : Outcome ConversionReceipt}
    (hrun : Action.convert order valueOf ledger = .ok out)
    (hrun' : Action.convert order valueOf ledger' = .ok out') :
    out'.result = out.result ∧ Abreast order.owner shift out.ledger out'.ledger := by
  obtain ⟨mown, both, retired, recomputed, entered, -, hmow, hboth, hretire, hvalue, henter, rfl⟩ :=
    Action.convert_stages hrun
  obtain ⟨mown', both', retired', recomputed', entered', -, hmow', hboth', hretire', hvalue',
    henter', rfl⟩ := Action.convert_stages hrun'
  obtain ⟨-, hmown⟩ := h.mow hmow hmow'
  have hmownBoth : Abreast order.owner shift both.ledger both'.ledger := by
    rcases hboth with ⟨hne, hagain⟩ | ⟨heq, rfl⟩
    · obtain ⟨-, hagain'⟩ := hboth'.resolve_right fun h => hne h.1
      exact (hmown.toAlike.mow hagain hagain').2
    · obtain ⟨-, rfl⟩ := hboth'.resolve_left fun h => h.1 heq
      exact hmown
  obtain ⟨hresult, hretired⟩ := hmownBoth.retire hretire hretire'
  obtain rfl : recomputed = recomputed' := Except.ok.inj (hvalue.symm.trans hvalue')
  rw [hresult] at henter'
  have hentered := hretired.enter henter henter'
  exact hentered

/-! ### Either order -/

/-- A change leaves the ledger alike for every account that it does not touch. -/
theorem Frame.alike {parties : List AccountId} {listings : List AssetId}
    (h : Frame parties listings ledger ledger') (hid : id ∉ parties) :
    Alike id (ledger'.count - ledger.count) ledger ledger' where
  toSameTerms := h.toSameTerms
  epoch := h.epoch
  floods := h.floods
  account := by rw [h.account id hid]
  roots := .inr (by rw [Ledger.account, h.account id hid, Ledger.account])
  deposits := fun slot howner => h.deposits slot (howner ▸ hid)
  legacyDeposits := fun slot howner => h.legacyDeposits slot (howner ▸ hid)
  counts := fun counter => by rw [Pi.sub_apply, add_sub_cancel]

/-- Two ledgers are the same but for the roots of some accounts and the total of roots. -/
structure SameButRoots (ids : List AccountId) (ledger ledger' : Ledger) : Prop where
  books : ledger' = { ledger with
    accounts := ledger'.accounts
    totals := { ledger.totals with roots := ledger'.totals.roots } }
  accounts : ∀ id, (ledger'.accounts.get? id).map Account.rootless =
    (ledger.accounts.get? id).map Account.rootless
  others : ∀ id ∉ ids, ledger'.accounts.get? id = ledger.accounts.get? id

/-- The ledgers on the two ways of making an operation of either account.  Each operation touches
one account only, and does the same after the other as before it. -/
structure Crossing (a b : AccountId) (start ledgerA ledgerB ledgerAB ledgerBA : Ledger) : Prop where
  ne : a ≠ b
  onlyA : ∃ listings, Frame [a] listings start ledgerA
  onlyB : ∃ listings, Frame [b] listings start ledgerB
  thenB : ∃ listings, Frame [b] listings ledgerA ledgerAB
  thenA : ∃ listings, Frame [a] listings ledgerB ledgerBA
  alikeA : Alike a (ledgerB.count - start.count) ledgerA ledgerBA
  alikeB : Alike b (ledgerA.count - start.count) ledgerB ledgerAB

namespace Crossing

variable {a b : AccountId} {start ledgerA ledgerB ledgerAB ledgerBA : Ledger}

/-- What belongs to neither account is what it was, -/
theorem untouched_eq {α : Type} (h : Crossing a b start ledgerA ledgerB ledgerAB ledgerBA)
    {f : Ledger → α} {owner : AccountId} (ha : owner ∉ [a]) (hb : owner ∉ [b])
    (frame : ∀ {party listings before after}, owner ∉ [party] →
      Frame [party] listings before after → f after = f before) :
    f ledgerBA = f ledgerAB := by
  obtain ⟨_, honlyA⟩ := h.onlyA
  obtain ⟨_, honlyB⟩ := h.onlyB
  obtain ⟨_, hthenB⟩ := h.thenB
  obtain ⟨_, hthenA⟩ := h.thenA
  calc f ledgerBA = f ledgerB := frame ha hthenA
    _ = f start := frame hb honlyB
    _ = f ledgerA := (frame ha honlyA).symm
    _ = f ledgerAB := (frame hb hthenB).symm

/-- and what belongs to one of them has been changed by its own operation alone. -/
theorem owned_eq {α : Type} (h : Crossing a b start ledgerA ledgerB ledgerAB ledgerBA)
    {f : Ledger → α} (owner : AccountId)
    (frame : ∀ {party listings before after}, owner ∉ [party] →
      Frame [party] listings before after → f after = f before)
    (alike : ∀ {shift before after}, Alike owner shift before after → f after = f before) :
    f ledgerBA = f ledgerAB := by
  by_cases ha : owner = a
  · obtain rfl := ha
    obtain ⟨_, hthenB⟩ := h.thenB
    exact (alike h.alikeA).trans (frame (mt List.mem_singleton.mp h.ne) hthenB).symm
  by_cases hb : owner = b
  · obtain rfl := hb
    obtain ⟨_, hthenA⟩ := h.thenA
    exact (frame (mt List.mem_singleton.mp ha) hthenA).trans (alike h.alikeB).symm
  exact h.untouched_eq (mt List.mem_singleton.mp ha) (mt List.mem_singleton.mp hb) frame

/-- Both operations are counted on both ways. -/
theorem count_eq (h : Crossing a b start ledgerA ledgerB ledgerAB ledgerBA) (counter : Counter) :
    ledgerBA.count counter = ledgerAB.count counter := by
  rw [h.alikeA.counts, h.alikeB.counts, Pi.sub_apply, Pi.sub_apply]
  omega

/-- Either order leaves the assets on the same terms. -/
theorem sameTerms (h : Crossing a b start ledgerA ledgerB ledgerAB ledgerBA) :
    SameTerms ledgerAB ledgerBA := by
  obtain ⟨_, hthenB⟩ := h.thenB
  exact hthenB.toSameTerms.symm.trans h.alikeA.toSameTerms

/-- The entries of an asset are the same, because what is held in it is counted. -/
theorem assets_eq (h : Crossing a b start ledgerA ledgerB ledgerAB ledgerBA) :
    ledgerBA.assets = ledgerAB.assets := by
  refine SortedMap.ext_get? fun asset => ?_
  have hquantity := h.count_eq (.quantity asset)
  have hvalue := h.count_eq (.value asset)
  simp only [count] at hquantity hvalue
  cases hget : ledgerAB.assets.get? asset with
  | none =>
    have hterms := h.sameTerms.assets asset
    rwa [hget, Option.map_none, Option.map_eq_none_iff] at hterms
  | some entry =>
    obtain ⟨entry', hget', hsame⟩ := h.sameTerms.entry hget
    rw [hget, hget', Option.elim_some, Option.elim_some, Int.natCast_inj] at hquantity hvalue
    have hrefilled (entry : Asset) : { entry.emptied with
        totalQuantity := entry.totalQuantity, totalValue := entry.totalValue } = entry := rfl
    rw [hget', ← hrefilled entry', hsame, Unsigned.ext hquantity, Unsigned.ext hvalue, hrefilled]

/-- What has been claimed is counted, and nothing else of the floods has changed. -/
theorem floodBook_eq (h : Crossing a b start ledgerA ledgerB ledgerAB ledgerBA) :
    ledgerBA.floodBook = ledgerAB.floodBook := by
  obtain ⟨_, hthenB⟩ := h.thenB
  have hsame : ledgerBA.floodBook.unclaimed = ledgerAB.floodBook.unclaimed :=
    h.alikeA.floods.trans hthenB.floods.symm
  have hclaimed : ledgerBA.floodBook.totalClaimed = ledgerAB.floodBook.totalClaimed :=
    Unsigned.ext (Int.ofNat_inj.mp (h.count_eq .claimed))
  have hrefilled (book : FloodBook) :
      { book.unclaimed with totalClaimed := book.totalClaimed } = book := rfl
  rw [← hrefilled ledgerBA.floodBook, hsame, hclaimed, hrefilled]

/-- **Both ways lead to the same ledger**, up to roots. -/
theorem sameButRoots (h : Crossing a b start ledgerA ledgerB ledgerAB ledgerBA) :
    SameButRoots [a, b] ledgerAB ledgerBA where
  books := by
    obtain ⟨_, hthenB⟩ := h.thenB
    have hepoch : ledgerBA.epoch = ledgerAB.epoch := h.alikeA.epoch.trans hthenB.epoch.symm
    have hdeposits : ledgerBA.deposits = ledgerAB.deposits := SortedMap.ext_get? fun slot =>
      h.owned_eq slot.owner (fun howner hframe => hframe.deposits slot howner)
        fun halike => halike.deposits slot rfl
    have hlegacy : ledgerBA.legacyDeposits = ledgerAB.legacyDeposits :=
      SortedMap.ext_get? fun slot =>
        h.owned_eq slot.owner (fun howner hframe => hframe.legacyDeposits slot howner)
          fun halike => halike.legacyDeposits slot rfl
    have hstalk : ledgerBA.totals.stalk = ledgerAB.totals.stalk :=
      Unsigned.ext (Int.ofNat_inj.mp (h.count_eq .stalk))
    have hpool : ledgerBA.totals.earnedPool = ledgerAB.totals.earnedPool :=
      Unsigned.ext (Int.ofNat_inj.mp (h.count_eq .earnedPool))
    dsimp only
    rw [← h.sameTerms.charter, ← hepoch, ← h.assets_eq, ← hdeposits, ← hlegacy, ← hstalk, ← hpool,
      ← h.floodBook_eq]
  accounts := fun id => h.owned_eq id (fun hid hframe => by rw [hframe.account id hid]) (·.account)
  others := fun id hid => by
    rw [List.mem_cons, not_or] at hid
    exact h.untouched_eq (mt List.mem_singleton.mp hid.1) hid.2 fun howner hframe =>
      hframe.account id howner

end Crossing

end Ledger

/-! ### Calls -/

namespace Call

/-- The account that a call is an operation of, made by itself on what it holds. -/
def operator : Call → Option AccountId
  | .mow account _ | .claim account _ _ => some account
  | .deposit owner _ _ | .withdraw owner _ _ _ _ _ | .importLegacy owner _ _ _ _
  | .migrate owner _ _ => some owner
  | .convert order => some order.owner
  | _ => none

variable {call : Call} {id : AccountId}

/-- A call with an operator changes something for no other account, and nothing about how assets
grow. -/
theorem accounts_of_operator (h : call.operator = some id) :
    call.accounts = [id] ∧ call.retunes = false ∧ call.mutates = true := by
  cases call with
  | mow | claim | deposit | withdraw | importLegacy | migrate | convert =>
    obtain rfl := Option.some.inj h
    exact ⟨rfl, rfl, rfl⟩
  | _ => cases h

end Call

namespace Vault

open StalkLedger.Action
open Ledger (Frame Alike Counter Crossing SameButRoots)

variable {α ρ : Type} {vault vault' : Vault}

/-! ### Valuations stay -/

/-- No call touches the valuations: neither one that is made during a payout, -/
theorem serve_valuations_of_entered (hentered : vault.entered = true) (call : Call) :
    (serve call vault).2.valuations = vault.valuations := by
  by_cases hdrain : call = .drainEvents
  · rw [hdrain]
    rfl
  · rw [serve_of_kept hentered hdrain]

/-- nor all of them together, -/
theorem serveAll_valuations_of_entered (hentered : vault.entered = true) (calls : List Call) :
    (serveAll calls vault).2.valuations = vault.valuations := by
  induction calls generalizing vault with
  | nil => rfl
  | cons call calls ih =>
    have hrest := ih (serve_of_entered hentered call).2
    exact hrest.trans (serve_valuations_of_entered hentered call)

/-- nor a change, if what follows it does not, -/
theorem transactThen_valuations {action : Action α} {follow : α → Vault → Option (Payout ρ) × Vault}
    (hfollow : ∀ a after, after.entered = true →
      (follow a after).2.valuations = after.valuations) :
    (vault.transactThen action follow).2.valuations = vault.valuations := by
  unfold transactThen
  split
  · rfl
  cases action vault.ledger with
  | error fault => rfl
  | ok out =>
    have hsame := hfollow out.result { vault with ledger := out.ledger, entered := true } rfl
    dsimp only
    revert hsame
    rcases follow out.result { vault with ledger := out.ledger, entered := true } with
      ⟨_ | payout, after⟩
    · exact id
    · intro hsame
      dsimp only
      split <;> exact hsame

/-- so neither does a change that nothing follows, -/
theorem transact_valuations (action : Action α) :
    (vault.transact action).2.valuations = vault.valuations := by
  have hsame : (vault.transactThen action
      fun _ vault => ((none : Option (Payout Unit)), vault)).2.valuations = vault.valuations :=
    transactThen_valuations fun _ _ _ => rfl
  exact hsame

/-- nor one that pays out. -/
theorem transactPaying_valuations (action : Action α) (due : α → Payment) (accepts : Bool)
    (inner : List Call) :
    (vault.transactPaying action due (carrying accepts inner)).2.valuations = vault.valuations := by
  refine transactThen_valuations fun a after hentered => ?_
  unfold pay
  split
  · rfl
  · exact serveAll_valuations_of_entered hentered inner

/-- No call changes a valuation. -/
theorem serve_valuations (call : Call) (vault : Vault) :
    (serve call vault).2.valuations = vault.valuations := by
  cases call with
  | query | drainEvents => rfl
  | withdraw owner asset indices amounts accepts inner =>
    rw [serve_withdraw]
    exact transactPaying_valuations (Action.withdraw owner asset indices amounts)
      (fun receipt => ⟨asset, owner, receipt.quantity⟩) accepts inner
  | claim id accepts inner =>
    rw [serve_claim]
    exact transactPaying_valuations (claimFlood id)
      (fun amount => ⟨vault.ledger.charter.floodAsset, id, amount⟩) accepts inner
  | _ => exact transact_valuations _

/-! ### Operations -/

/-- A change is answered by a vault that was not entered. -/
theorem entered_of_answered {call : Call} {answer : Answer} (hmutates : call.mutates = true)
    (h : (serve call vault).1.result = .ok answer) : vault.entered = false := by
  cases hentered : vault.entered with
  | false => rfl
  | true =>
    rw [serve_of_mutates hentered hmutates] at h
    cases h

/-- Two changes that are answered, by the same action or by two. -/
theorem Changed.alike {id : AccountId} {shift : Counter → ℤ} {action action' : Action α}
    {completion completion' : Completion α} {after after' : Vault} {answer : α → Answer}
    {x x' : Answer} (hchanged : Changed action vault completion after)
    (hchanged' : Changed action' vault' completion' after')
    (hx : completion.result.map answer = .ok x) (hx' : completion'.result.map answer = .ok x')
    (made : ∀ {out out'}, action vault.ledger = .ok out → action' vault'.ledger = .ok out' →
      (answer out'.result).rootless = (answer out.result).rootless ∧
        Alike id shift out.ledger out'.ledger) :
    x'.rootless = x.rootless ∧ Alike id shift after.ledger after'.ledger := by
  cases hchanged with
  | refused fault hc =>
    rw [hc] at hx
    cases hx
  | made out hrun hc hl =>
    cases hchanged' with
    | refused fault hc' =>
      rw [hc'] at hx'
      cases hx'
    | made out' hrun' hc' hl' =>
      rw [hc] at hx
      rw [hc'] at hx'
      cases hx
      cases hx'
      rw [hl, hl']
      exact made hrun hrun'

/-- **An operation does the same** on ledgers that are alike for its account. -/
theorem serve_alike {call : Call} {id : AccountId} {shift : Counter → ℤ} {x x' : Answer}
    (hid : call.operator = some id) (h : Alike id shift vault.ledger vault'.ledger)
    (hvaluations : vault'.valuations = vault.valuations)
    (hx : (serve call vault).1.result = .ok x) (hx' : (serve call vault').1.result = .ok x') :
    x'.rootless = x.rootless ∧
      Alike id shift (serve call vault).2.ledger (serve call vault').2.ledger := by
  obtain ⟨-, -, hmutates⟩ := Call.accounts_of_operator hid
  have hentered := entered_of_answered hmutates hx
  have hentered' := entered_of_answered hmutates hx'
  have hvalueOf : vault'.valueOf = vault.valueOf := by
    funext asset quantity
    rw [valueOf, hvaluations, valueOf]
  -- What is answered without a receipt of roots is the result itself.
  have answers {β : Type} {answer : β → Answer} {out out' : Outcome β}
      (hsame : out'.result = out.result ∧ Ledger.Abreast id shift out.ledger out'.ledger) :
      (answer out'.result).rootless = (answer out.result).rootless ∧
        Alike id shift out.ledger out'.ledger :=
    ⟨by rw [hsame.1], hsame.2.toAlike⟩
  cases call with
  | mow account asset =>
    obtain rfl : account = id := Option.some.inj hid
    exact (transact_changed hentered).alike (transact_changed hentered') hx hx'
      fun hrun hrun' => answers (h.mow hrun hrun')
  | deposit owner asset quantity =>
    obtain rfl : owner = id := Option.some.inj hid
    refine (transact_changed hentered).alike (transact_changed hentered') hx hx'
      fun hrun hrun' => ?_
    obtain ⟨value, hvalue, hdeposit⟩ := lift_bind.mp hrun
    obtain ⟨value', hvalue', hdeposit'⟩ := lift_bind.mp hrun'
    rw [hvalueOf, hvalue] at hvalue'
    obtain rfl := Except.ok.inj hvalue'
    obtain ⟨hreceipt, hafter⟩ := h.deposit hdeposit hdeposit'
    exact ⟨congrArg Answer.deposited hreceipt, hafter.toAlike⟩
  | withdraw owner asset indices amounts accepts inner =>
    obtain rfl : owner = id := Option.some.inj hid
    rw [serve_withdraw] at hx hx' ⊢
    rw [serve_withdraw]
    refine (withdraw_changed hentered).alike (withdraw_changed hentered') hx hx'
      fun hrun hrun' => ?_
    obtain ⟨hreceipt, hafter⟩ := h.withdraw hrun hrun'
    exact ⟨congrArg Answer.withdrawn hreceipt, hafter.toAlike⟩
  | convert order =>
    obtain rfl : order.owner = id := Option.some.inj hid
    refine (transact_changed hentered).alike (transact_changed hentered') hx hx'
      fun hrun hrun' => ?_
    rw [hvalueOf] at hrun'
    exact answers (h.convert hrun hrun')
  | importLegacy owner asset epoch quantity value =>
    obtain rfl : owner = id := Option.some.inj hid
    exact (transact_changed hentered).alike (transact_changed hentered') hx hx'
      fun hrun hrun' => answers (h.importLegacy hrun hrun')
  | migrate owner asset epochs =>
    obtain rfl : owner = id := Option.some.inj hid
    exact (transact_changed hentered).alike (transact_changed hentered') hx hx'
      fun hrun hrun' => answers (h.migrate hrun hrun')
  | claim account accepts inner =>
    obtain rfl : account = id := Option.some.inj hid
    rw [serve_claim] at hx hx' ⊢
    rw [serve_claim]
    exact (claim_changed hentered).alike (claim_changed hentered') hx hx'
      fun hrun hrun' => answers (h.claimFlood hrun hrun')
  | _ => cases hid

/-- An operation touches its account only. -/
theorem serve_touches {call : Call} {id : AccountId} {x : Answer} (hid : call.operator = some id)
    (hx : (serve call vault).1.result = .ok x) :
    ∃ listings, Frame [id] listings vault.ledger (serve call vault).2.ledger := by
  obtain ⟨haccounts, hretunes, hmutates⟩ := Call.accounts_of_operator hid
  rw [← haccounts]
  exact ⟨_, serve_frame (entered_of_answered hmutates hx) hretunes⟩

/-- **Operations of different accounts commute.**  If an operation of one account and an operation
of another can be made in either order, both orders lead to the same ledger, but for the roots of
the two accounts and the total of roots, and each operation is answered the same on both ways, but
for the roots that its receipt counts. -/
theorem operations_commute {first second : Call} {a b : AccountId}
    (hfirst : first.operator = some a) (hsecond : second.operator = some b) (hne : a ≠ b)
    {x x' y y' : Answer} (hx : (serve first vault).1.result = .ok x)
    (hy : (serve second (serve first vault).2).1.result = .ok y)
    (hy' : (serve second vault).1.result = .ok y')
    (hx' : (serve first (serve second vault).2).1.result = .ok x') :
    SameButRoots [a, b] (serve second (serve first vault).2).2.ledger
        (serve first (serve second vault).2).2.ledger ∧
      x'.rootless = x.rootless ∧ y'.rootless = y.rootless := by
  obtain ⟨_, honlyA⟩ := serve_touches hfirst hx
  obtain ⟨_, honlyB⟩ := serve_touches hsecond hy'
  obtain ⟨hsameA, halikeA⟩ := serve_alike hfirst
    (honlyB.alike (mt List.mem_singleton.mp hne)) (serve_valuations second vault) hx hx'
  obtain ⟨hsameB, halikeB⟩ := serve_alike hsecond
    (honlyA.alike (mt List.mem_singleton.mp hne.symm)) (serve_valuations first vault) hy' hy
  have hcrossing : Crossing a b vault.ledger (serve first vault).2.ledger
      (serve second vault).2.ledger (serve second (serve first vault).2).2.ledger
      (serve first (serve second vault).2).2.ledger :=
    ⟨hne, ⟨_, honlyA⟩, ⟨_, honlyB⟩, serve_touches hsecond hy, serve_touches hfirst hx', halikeA,
      halikeB⟩
  exact ⟨hcrossing.sameButRoots, hsameA, hsameB.symm⟩

/-- In a flood, after reward has diluted the roots, accounts 7 and 8 withdraw from the same asset.
A root less is burned for account 7 if it comes second. -/
theorem operations_commute_sample :
    let vault := (run (.whitelist 0 ⟨10000, 2, none⟩ .unit :: .call (.receiveReward 7) ::
      sampleRequests.take 4) sample).2
    let first : Call := .withdraw 7 1 [.ofInt (-8)] [10] true [.drainEvents]
    let second : Call := .withdraw 8 1 [0] [5] true []
    first.operator = some 7 ∧ second.operator = some 8 ∧ (7 : AccountId) ≠ 8 ∧
      (serve first vault).1.result = .ok (.withdrawn ⟨1, 10, 13, 130182, 110806383398537167⟩) ∧
      (serve second (serve first vault).2).1.result =
        .ok (.withdrawn ⟨1, 5, 5, 50030, 42583793162102399⟩) ∧
      (serve second vault).1.result = .ok (.withdrawn ⟨1, 5, 5, 50030, 42583793162102399⟩) ∧
      (serve first (serve second vault).2).1.result =
        .ok (.withdrawn ⟨1, 10, 13, 130182, 110806383398537166⟩) ∧
      SameButRoots [7, 8] (serve second (serve first vault).2).2.ledger
        (serve first (serve second vault).2).2.ledger := by
  intro vault first second
  have hne : (7 : AccountId) ≠ 8 := by decide
  have hx : (serve first vault).1.result =
      .ok (.withdrawn ⟨1, 10, 13, 130182, 110806383398537167⟩) := by decide +kernel
  have hy : (serve second (serve first vault).2).1.result =
      .ok (.withdrawn ⟨1, 5, 5, 50030, 42583793162102399⟩) := by decide +kernel
  have hy' : (serve second vault).1.result =
      .ok (.withdrawn ⟨1, 5, 5, 50030, 42583793162102399⟩) := by decide +kernel
  have hx' : (serve first (serve second vault).2).1.result =
      .ok (.withdrawn ⟨1, 10, 13, 130182, 110806383398537166⟩) := by decide +kernel
  exact ⟨rfl, rfl, hne, hx, hy, hy', hx', (operations_commute rfl rfl hne hx hy hy' hx').1⟩

end Vault

end StalkLedger
