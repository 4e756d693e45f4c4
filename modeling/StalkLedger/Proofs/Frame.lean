import StalkLedger.Proofs.Isolation

/-!
# What an operation leaves alone

All books are kept together, and every operation goes through the same few steps on them.  A
*frame* (`Ledger.Frame`) says that a change touched some accounts and some assets only: the records
and the positions of other accounts are the same, the entries of other assets are the same, and of
the assets that it touched only the totals may differ.  Clock, charter and floods are the same, up
to what has been claimed of them.

Each step has the frame of the accounts and assets it names, and so has each flow, because frames
are composed one after the other (`Frame.trans`).

**Frames** (`Vault.operations_framed`).  A request leaves alone whatever it does not name.
-/

namespace StalkLedger

/-- The book of floods without what has been claimed. -/
def FloodBook.unclaimed (book : FloodBook) : FloodBook := { book with totalClaimed := 0 }

/-- A position that comes is entered in the totals of its asset, and in no other field. -/
theorem Asset.emptied_of_take {entry entry' : Asset} {position : Position}
    (h : entry.take position = .ok entry') : entry'.emptied = entry.emptied := by
  obtain ⟨_, _, -, -, rfl⟩ := take_eq_ok.mp h
  rfl

/-- Nor does a position that goes change anything else. -/
theorem Asset.emptied_of_release {entry entry' : Asset} {position : Position}
    (h : entry.release position = .ok entry') : entry'.emptied = entry.emptied := by
  obtain ⟨_, _, -, -, rfl⟩ := release_eq_ok.mp h
  rfl

namespace Ledger

/-! ### Frames -/

/-- Nothing changed but what belongs to some accounts, the totals held in some assets, the totals
of the ledger, and what has been claimed. -/
structure Frame (parties : List AccountId) (listings : List AssetId) (ledger ledger' : Ledger) :
    Prop extends SameTerms ledger ledger' where
  epoch : ledger'.epoch = ledger.epoch
  floods : ledger'.floodBook.unclaimed = ledger.floodBook.unclaimed
  entry : ∀ asset ∉ listings, ledger'.assets.get? asset = ledger.assets.get? asset
  account : ∀ id ∉ parties, ledger'.accounts.get? id = ledger.accounts.get? id
  deposits : ∀ slot : Slot Index, slot.owner ∉ parties →
    ledger'.deposits.get? slot = ledger.deposits.get? slot
  legacyDeposits : ∀ slot : Slot Epoch, slot.owner ∉ parties →
    ledger'.legacyDeposits.get? slot = ledger.legacyDeposits.get? slot

namespace Frame

variable {parties : List AccountId} {listings : List AssetId} {ledger ledger' ledger'' : Ledger}
  {id owner : AccountId} {asset : AssetId}

theorem refl (ledger : Ledger) : Frame parties listings ledger ledger :=
  ⟨.refl ledger, rfl, rfl, fun _ _ => rfl, fun _ _ => rfl, fun _ _ => rfl, fun _ _ => rfl⟩

theorem trans (h : Frame parties listings ledger ledger')
    (h' : Frame parties listings ledger' ledger'') : Frame parties listings ledger ledger'' where
  toSameTerms := h.toSameTerms.trans h'.toSameTerms
  epoch := h'.epoch.trans h.epoch
  floods := h'.floods.trans h.floods
  entry _ ha := (h'.entry _ ha).trans (h.entry _ ha)
  account _ hi := (h'.account _ hi).trans (h.account _ hi)
  deposits _ hs := (h'.deposits _ hs).trans (h.deposits _ hs)
  legacyDeposits _ hs := (h'.legacyDeposits _ hs).trans (h.legacyDeposits _ hs)

end Frame

/-- The books of the accounts are the same. -/
structure SameBooks (ledger ledger' : Ledger) : Prop where
  accounts : ledger'.accounts = ledger.accounts
  deposits : ledger'.deposits = ledger.deposits
  legacyDeposits : ledger'.legacyDeposits = ledger.legacyDeposits

theorem SameBooks.refl (ledger : Ledger) : SameBooks ledger ledger := ⟨rfl, rfl, rfl⟩

namespace Frame

variable {parties : List AccountId} {listings : List AssetId} {ledger ledger' ledger'' : Ledger}
  {id owner : AccountId} {asset : AssetId}

/-- A change that touches no account leaves the books of the accounts alone. -/
theorem books (h : Frame [] listings ledger ledger') : SameBooks ledger ledger' where
  accounts := SortedMap.ext_get? fun id => h.account id List.not_mem_nil
  deposits := SortedMap.ext_get? fun slot => h.deposits slot List.not_mem_nil
  legacyDeposits := SortedMap.ext_get? fun slot => h.legacyDeposits slot List.not_mem_nil

/-! ### Entering something -/

/-- A record is entered for an account that is named, -/
theorem withAccount (hi : id ∈ parties) (account : Account) :
    Frame parties listings ledger (ledger.withAccount id account) where
  toSameTerms := ⟨rfl, fun _ => rfl⟩
  epoch := rfl
  floods := rfl
  entry _ _ := rfl
  account _ hn := SortedMap.get?_insert_of_ne _ (ne_of_mem_of_not_mem hi hn).symm _
  deposits _ _ := rfl
  legacyDeposits _ _ := rfl

/-- other totals are entered, -/
theorem withTotals (totals : Totals) : Frame parties listings ledger { ledger with totals } :=
  ⟨⟨rfl, fun _ => rfl⟩, rfl, rfl, fun _ _ => rfl, fun _ _ => rfl, fun _ _ => rfl, fun _ _ => rfl⟩

/-- more is claimed of the floods, -/
theorem withFloodBook (floodBook : FloodBook)
    (h : floodBook.unclaimed = ledger.floodBook.unclaimed) :
    Frame parties listings ledger { ledger with floodBook } :=
  ⟨⟨rfl, fun _ => rfl⟩, rfl, h, fun _ _ => rfl, fun _ _ => rfl, fun _ _ => rfl, fun _ _ => rfl⟩

/-- or the totals of an asset that is named change. -/
theorem withAsset {entry entry' : Asset} (ha : asset ∈ listings)
    (he : ledger.asset asset = .ok entry) (hs : entry'.emptied = entry.emptied) :
    Frame parties listings ledger (ledger.withAsset asset entry') where
  toSameTerms := .of_insert rfl rfl he hs
  epoch := rfl
  floods := rfl
  entry _ hn := SortedMap.get?_insert_of_ne _ (ne_of_mem_of_not_mem ha hn).symm _
  account _ _ := rfl
  deposits _ _ := rfl
  legacyDeposits _ _ := rfl

/-- A store may change in the slots of accounts that are named: the current store, -/
theorem withDeposits {deposits : SortedMap (Slot Index) Position}
    (h : ∀ slot : Slot Index, slot.owner ∉ parties →
      deposits.get? slot = ledger.deposits.get? slot) :
    Frame parties listings ledger { ledger with deposits } :=
  ⟨⟨rfl, fun _ => rfl⟩, rfl, rfl, fun _ _ => rfl, fun _ _ => rfl, h, fun _ _ => rfl⟩

/-- and the legacy store. -/
theorem withLegacyDeposits {legacyDeposits : SortedMap (Slot Epoch) Position}
    (h : ∀ slot : Slot Epoch, slot.owner ∉ parties →
      legacyDeposits.get? slot = ledger.legacyDeposits.get? slot) :
    Frame parties listings ledger { ledger with legacyDeposits } :=
  ⟨⟨rfl, fun _ => rfl⟩, rfl, rfl, fun _ _ => rfl, fun _ _ => rfl, fun _ _ => rfl, h⟩

end Frame

end Ledger

namespace SortedMap

variable {μ : Type} [Key μ] {store store' : SortedMap (Slot μ) Position} {slot slot' : Slot μ}

/-- What is put into a slot is not in another, -/
theorem get?_of_put {position : Position} (h : store.put slot position = .ok store')
    (hne : slot' ≠ slot) : store'.get? slot' = store.get? slot' := by
  obtain ⟨merged, -, -, rfl⟩ := put_eq_ok.mp h
  exact get?_insert_of_ne _ hne _

/-- and what is taken out of a slot is taken out of no other. -/
theorem get?_of_take {amount value : Amount} (h : store.take slot amount = .ok (value, store'))
    (hne : slot' ≠ slot) : store'.get? slot' = store.get? slot' := by
  obtain ⟨position, -, ⟨-, -, rfl⟩ | ⟨-, -, rest, -, -, rfl⟩⟩ := take_eq_ok h
  · exact get?_erase_of_ne _ hne
  · exact get?_insert_of_ne _ hne _

/-- What is taken out of a slot depends on what is in it. -/
theorem take_local {other : SortedMap (Slot μ) Position} {amount value : Amount}
    (hsame : other.get? slot = store.get? slot)
    (h : store.take slot amount = .ok (value, store')) :
    ∃ other', other.take slot amount = .ok (value, other') ∧
      other'.get? slot = store'.get? slot := by
  unfold take at h ⊢
  rw [hsame]
  cases hget : store.get? slot with
  | none =>
    rw [hget] at h
    cases h
  | some position =>
    rw [hget] at h
    dsimp only at h ⊢
    split at h
    · cases h
    next hle =>
      rw [if_neg hle]
      split at h
      next hall =>
        cases h
        exact ⟨_, if_pos hall, by rw [get?_erase_self, get?_erase_self]⟩
      next hpart =>
        simp only [bind_eq_ok, StalkLedger.pure_eq_ok] at h
        obtain ⟨share, hshare, quantity, hquantity, rest, hrest, h⟩ := h
        cases h
        refine ⟨other.insert slot ⟨quantity, rest⟩, ?_, by
          rw [get?_insert_self, get?_insert_self]⟩
        rw [if_neg hpart]
        exact bind_eq_ok.mpr ⟨_, hshare, bind_eq_ok.mpr ⟨_, hquantity,
          bind_eq_ok.mpr ⟨_, hrest, rfl⟩⟩⟩

end SortedMap

namespace Ledger.Frame

open StalkLedger.Action

variable {parties : List AccountId} {listings : List AssetId} {ledger ledger' : Ledger}
  {id owner : AccountId} {asset : AssetId}

/-- A position is put into a slot of an account that is named, -/
theorem put (slot : Slot Index) {position : Position} {deposits : SortedMap (Slot Index) Position}
    (hi : slot.owner ∈ parties) (h : ledger.deposits.put slot position = .ok deposits) :
    Frame parties listings ledger { ledger with deposits } :=
  withDeposits fun _ hn => SortedMap.get?_of_put h fun e => hn (e ▸ hi)

/-- or into one of its legacy slots. -/
theorem putLegacy (slot : Slot Epoch) {position : Position}
    {legacyDeposits : SortedMap (Slot Epoch) Position} (hi : slot.owner ∈ parties)
    (h : ledger.legacyDeposits.put slot position = .ok legacyDeposits) :
    Frame parties listings ledger { ledger with legacyDeposits } :=
  withLegacyDeposits fun _ hn => SortedMap.get?_of_put h fun e => hn (e ▸ hi)

/-- A legacy slot is emptied. -/
theorem eraseLegacy (slot : Slot Epoch) (hi : slot.owner ∈ parties) :
    Frame parties listings ledger
      { ledger with legacyDeposits := ledger.legacyDeposits.erase slot } :=
  withLegacyDeposits fun _ hn => SortedMap.get?_erase_of_ne _ fun e => hn (e ▸ hi)

/-- Some of a position is taken out of a slot, -/
theorem take (slot : Slot Index) {amount value : Amount}
    {deposits : SortedMap (Slot Index) Position} (hi : slot.owner ∈ parties)
    (h : ledger.deposits.take slot amount = .ok (value, deposits)) :
    Frame parties listings ledger { ledger with deposits } :=
  withDeposits fun _ hn => SortedMap.get?_of_take h fun e => hn (e ▸ hi)

/-- or out of a legacy slot. -/
theorem takeLegacy (slot : Slot Epoch) {amount value : Amount}
    {legacyDeposits : SortedMap (Slot Epoch) Position} (hi : slot.owner ∈ parties)
    (h : ledger.legacyDeposits.take slot amount = .ok (value, legacyDeposits)) :
    Frame parties listings ledger { ledger with legacyDeposits } :=
  withLegacyDeposits fun _ hn => SortedMap.get?_of_take h fun e => hn (e ▸ hi)

/-- A removal draws on both stores under the name of one account. -/
theorem takeAt {entry : Asset} {slot : Slot Index} {amount value : Amount}
    (hi : slot.owner ∈ parties)
    (h : ledger.takeAt entry slot amount = .ok (value, ledger')) :
    Frame parties listings ledger ledger' := by
  cases taken_of_takeAt h with
  | current ht => exact take slot hi ht
  | legacy _ ht => exact takeLegacy ⟨slot.owner, slot.asset, _⟩ hi ht
  | @both _ _ deposits _ _ _ _ _ _ _ _ _ hc ht =>
    have hlegacy : Frame parties listings { ledger with deposits } _ :=
      takeLegacy ⟨slot.owner, slot.asset, _⟩ hi ht
    exact (take slot hi hc).trans hlegacy

/-! ### Steps -/

/-- Stalk is credited to one account, -/
theorem creditStalk {stalk roots : Amount} {out : Outcome Unit} (hi : id ∈ parties)
    (h : Action.creditStalk id stalk roots ledger = .ok out) :
    Frame parties listings ledger out.ledger := by
  obtain ⟨_, _, _, -, -, rfl⟩ := creditStalk_spec h
  exact withAccount hi _

/-- or taken off one. -/
theorem debitStalk {stalk roots : Amount} {out : Outcome Unit} (hi : id ∈ parties)
    (h : Action.debitStalk id stalk roots ledger = .ok out) :
    Frame parties listings ledger out.ledger := by
  obtain ⟨_, _, _, -, -, rfl⟩ := debitStalk_spec h
  exact withAccount hi _

/-- Minting changes one account and the totals, -/
theorem mintStalk {stalk : Amount} {out : Outcome Amount} (hi : id ∈ parties)
    (h : Action.mintStalk id stalk ledger = .ok out) :
    Frame parties listings ledger out.ledger := by
  by_cases hzero : stalk = 0
  · rw [Action.mintStalk, if_pos hzero] at h
    obtain rfl := pure_eq_ok.mp h
    exact refl ledger
  · obtain ⟨_, totals, credited, -, -, hcredit, rfl⟩ := (mintStalk_eq_ok hzero).mp h
    exact (withTotals totals).trans (creditStalk hi hcredit)

/-- and so does burning. -/
theorem burnStalk {stalk : Amount} {out : Outcome Amount} (hi : id ∈ parties)
    (h : Action.burnStalk id stalk ledger = .ok out) :
    Frame parties listings ledger out.ledger := by
  by_cases hzero : stalk = 0
  · rw [Action.burnStalk, if_pos hzero] at h
    obtain rfl := pure_eq_ok.mp h
    exact refl ledger
  · obtain ⟨_, totals, debited, -, -, hdebit, rfl⟩ := (burnStalk_eq_ok hzero).mp h
    exact (withTotals totals).trans (debitStalk hi hdebit)

/-- Handing stalk over changes the two accounts only. -/
theorem transferStalk {sender recipient : AccountId} {stalk : Amount} {out : Outcome Amount}
    (hi : sender ∈ parties) (hi' : recipient ∈ parties)
    (h : Action.transferStalk sender recipient stalk ledger = .ok out) :
    Frame parties listings ledger out.ledger := by
  by_cases hzero : stalk = 0
  · rw [Action.transferStalk, if_pos hzero] at h
    obtain rfl := pure_eq_ok.mp h
    exact refl ledger
  · obtain ⟨_, debited, credited, -, hdebit, hcredit, rfl⟩ := (transferStalk_eq_ok hzero).mp h
    exact (debitStalk hi hdebit).trans (creditStalk hi' hcredit)

/-- Bringing a flood balance up to date changes the record of its account. -/
theorem update {out : Outcome Unit} (hi : id ∈ parties)
    (h : updateAccount id ledger = .ok out) : Frame parties listings ledger out.ledger := by
  rcases updateAccount_eq_ok.mp h with ⟨-, rfl⟩ | ⟨-, flood, -, rfl⟩
  · exact withAccount hi _
  · exact withAccount hi _

/-- Crediting growth moves a checkpoint of the account and mints for it. -/
theorem creditGrowth {out : Outcome Amount} (hi : id ∈ parties)
    (h : Action.creditGrowth id asset ledger = .ok out) :
    Frame parties listings ledger out.ledger := by
  obtain ⟨entry, grown, minted, -, -, hmint, rfl⟩ := creditGrowth_spec h
  have hminted : Frame parties listings _ minted.ledger := mintStalk hi hmint
  exact (withAccount hi _).trans hminted

/-- Value is booked at a checkpoint of one account, -/
theorem creditValue {value : Amount} {out : Outcome Unit} (hi : id ∈ parties)
    (h : Action.creditValue id asset value ledger = .ok out) :
    Frame parties listings ledger out.ledger := by
  obtain ⟨_, -, rfl⟩ := creditValue_eq_ok.mp h
  exact withAccount hi _

/-- or taken off it there. -/
theorem debitValue {value : Amount} {out : Outcome Unit} (hi : id ∈ parties)
    (h : Action.debitValue id asset value ledger = .ok out) :
    Frame parties listings ledger out.ledger := by
  obtain ⟨_, -, rfl⟩ := debitValue_eq_ok.mp h
  exact withAccount hi _

/-- A position that is added is in a slot of its owner and in the totals of its asset. -/
theorem addPositionAt {slot : Slot Index} {position : Position} {out : Outcome Unit}
    (hi : slot.owner ∈ parties) (ha : slot.asset ∈ listings)
    (h : Action.addPositionAt slot position ledger = .ok out) :
    Frame parties listings ledger out.ledger := by
  obtain ⟨deposits, entry, entry', -, -, -, hput, hentry, htake, rfl⟩ := addPositionAt_eq_ok.mp h
  have htaken : Frame parties listings { ledger with deposits } _ :=
    withAsset ha hentry (Asset.emptied_of_take htake)
  exact (put slot hi hput).trans htaken

/-- A removal touches the slots of one account, in either store, and the totals of one asset. -/
theorem removePosition {slot : Slot Index} {amount : Amount} {out : Outcome Amount}
    (hi : slot.owner ∈ parties) (ha : slot.asset ∈ listings)
    (h : Action.removePosition slot amount ledger = .ok out) :
    Frame parties listings ledger out.ledger := by
  by_cases hzero : amount = 0
  · rw [hzero] at h
    obtain ⟨-, rfl⟩ := removePosition_zero_eq_ok.mp h
    exact refl ledger
  · obtain ⟨_, taken, entry, entry', -, hentry, htake, hrelease, rfl⟩ :=
      (removePosition_eq_ok hzero).mp h
    -- The stores pay without touching the registry, so the entry is still the one that was read.
    have hentry' : taken.asset slot.asset = .ok entry := by
      obtain ⟨_, _, rfl⟩ := (taken_of_takeAt htake).frame
      exact hentry
    exact (takeAt hi htake).trans (withAsset ha hentry' (Asset.emptied_of_release hrelease))

theorem removeEach {entries : List (Index × Amount)} {removal : Removal} {out : Outcome Removal}
    (hi : owner ∈ parties) (ha : asset ∈ listings)
    (h : Action.removeEach owner asset entries removal ledger = .ok out) :
    Frame parties listings ledger out.ledger := by
  induction entries generalizing removal ledger out with
  | nil =>
    obtain rfl := pure_eq_ok.mp h
    exact refl ledger
  | cons entry entries ih =>
    obtain ⟨first, rest, hfirst, hnext, rfl⟩ := bind_apply_ok.mp h
    obtain ⟨extended, -, hrest⟩ := lift_bind.mp hnext
    have hframe := ih hrest
    exact (removePosition hi ha hfirst).trans hframe

/-- What is received belongs to the recipient; the sender is only named in the events. -/
theorem receiveEach {sender recipient : AccountId} {entries : List (Index × Amount × Amount)}
    {out : Outcome Unit} (hi : recipient ∈ parties) (ha : asset ∈ listings)
    (h : Action.receiveEach sender recipient asset entries ledger = .ok out) :
    Frame parties listings ledger out.ledger := by
  induction entries generalizing ledger out with
  | nil =>
    obtain rfl := pure_eq_ok.mp h
    exact refl ledger
  | cons entry entries ih =>
    obtain ⟨index, amount, value⟩ := entry
    unfold Action.receiveEach at h
    split at h
    · exact ih h
    · obtain ⟨added, _, hadd, h₁, rfl⟩ := bind_apply_ok.mp h
      obtain ⟨rest, hrest, rfl⟩ := emit_bind.mp h₁
      have hframe := ih hrest
      exact (addPositionAt hi ha hadd).trans hframe

/-- An entry moves from one store to the other under the same owner. -/
theorem migrateEpoch {terms : LegacyTerms} {epoch : Epoch} {out : Outcome (Option Index)}
    (hi : owner ∈ parties) (h : Action.migrateEpoch owner asset terms epoch ledger = .ok out) :
    Frame parties listings ledger out.ledger := by
  obtain ⟨-, ⟨-, rfl⟩ | ⟨position, index, deposits, -, -, hput, rfl⟩⟩ := migrateEpoch_stages h
  · exact refl ledger
  · have herased : Frame parties listings { ledger with deposits } _ :=
      eraseLegacy ⟨owner, asset, epoch⟩ hi
    exact (put ⟨owner, asset, index⟩ hi hput).trans herased

theorem migrateEach {terms : LegacyTerms} {epochs : List Epoch} {out : Outcome (List Index)}
    (hi : owner ∈ parties) (h : Action.migrateEach owner asset terms epochs ledger = .ok out) :
    Frame parties listings ledger out.ledger := by
  induction epochs generalizing ledger out with
  | nil =>
    obtain rfl := pure_eq_ok.mp h
    exact refl ledger
  | cons epoch epochs ih =>
    obtain ⟨moved, _, hmove, h₁, rfl⟩ := bind_apply_ok.mp h
    obtain ⟨others, hothers, rfl⟩ := bind_pure_eq_ok.mp h₁
    have hframe := ih hothers
    exact (migrateEpoch hi hmove).trans hframe

/-! ### Flows -/

/-- Mowing changes one account. It touches no asset, so it has the frame of any asset that the flow
after it names. -/
theorem mow {out : Outcome Amount} (hi : id ∈ parties) (h : Action.mow id asset ledger = .ok out) :
    Frame parties listings ledger out.ledger := by
  obtain ⟨updated, hupdate, hgrowth⟩ := mow_stages h
  exact (update hi hupdate).trans (creditGrowth hi hgrowth)

/-- A deposit names its owner and its asset, -/
theorem deposit {quantity value : Amount} {out : Outcome DepositReceipt}
    (h : Action.deposit owner asset quantity value ledger = .ok out) :
    Frame [owner] [asset] ledger out.ledger := by
  obtain ⟨mown, tip, added, booked, entry, stalk, minted, -, hmow, -, hadd, hbook, -, -, hmint,
    rfl⟩ := deposit_stages h
  have hi : owner ∈ [owner] := List.mem_singleton_self owner
  have ha : asset ∈ [asset] := List.mem_singleton_self asset
  exact (mow hi hmow).trans ((addPositionAt hi ha hadd).trans
    ((creditValue hi hbook).trans (mintStalk hi hmint)))

/-- and so does a withdrawal. -/
theorem withdraw {indices : List Index} {amounts : List Amount} {out : Outcome WithdrawReceipt}
    (h : Action.withdraw owner asset indices amounts ledger = .ok out) :
    Frame [owner] [asset] ledger out.ledger := by
  obtain ⟨mown, removed, entry, carried, debited, burned, hmow, hremove, -, -, hdebit, hburn,
    rfl⟩ := withdraw_stages h
  have hi : owner ∈ [owner] := List.mem_singleton_self owner
  have ha : asset ∈ [asset] := List.mem_singleton_self asset
  exact (mow hi hmow).trans ((removeEach hi ha (removeMultiple_stages hremove).2).trans
    ((debitValue hi hdebit).trans (burnStalk hi hburn)))

/-- A transfer names both accounts and one asset. -/
theorem transfer {sender recipient : AccountId} {indices : List Index} {amounts : List Amount}
    {out : Outcome TransferReceipt}
    (h : Action.transfer sender recipient asset indices amounts ledger = .ok out) :
    Frame [sender, recipient] [asset] ledger out.ledger := by
  obtain ⟨mown, mown', moved, hmow, hmow', hmove, rfl⟩ := transfer_stages h
  obtain ⟨removed, received, entry, carried, debited, credited, handed, hremove, hreceive, -, -,
    hdebit, hcredit, hhand, rfl⟩ := transferRealized_stages hmove
  have hi : sender ∈ [sender, recipient] := List.mem_cons_self
  have hi' : recipient ∈ [sender, recipient] := List.mem_cons_of_mem _ List.mem_cons_self
  have ha : asset ∈ [asset] := List.mem_singleton_self asset
  have hremoved := removeEach hi ha (removeMultiple_stages hremove).2
  exact (mow hi hmow).trans ((mow hi' hmow').trans (hremoved.trans
    ((receiveEach hi' ha hreceive).trans ((debitValue hi hdebit).trans
      ((creditValue hi' hcredit).trans (transferStalk hi hi' hhand))))))

/-- A conversion names one account and two assets, or twice the same. -/
theorem convert {order : ConversionOrder} {valueOf : Amount → Except Fault Amount}
    {out : Outcome ConversionReceipt} (h : Action.convert order valueOf ledger = .ok out) :
    Frame [order.owner] [order.fromAsset, order.toAsset] ledger out.ledger := by
  obtain ⟨mown, mown', retired, recomputed, entered, -, hmow, hmow', hretire, -, henter, rfl⟩ :=
    convert_stages h
  obtain ⟨removed, entry, carried, debited, burned, hremove, -, -, hdebit, hburn, rfl⟩ :=
    retire_stages hretire
  obtain ⟨target, backdate, forfeited, base, stalk, added, booked, minted, event, -, -, -, -, -,
    hadd, hbook, hmint, -, rfl⟩ := enter_stages henter
  have hi : order.owner ∈ [order.owner] := List.mem_singleton_self _
  have ha : order.fromAsset ∈ [order.fromAsset, order.toAsset] := List.mem_cons_self
  have ha' : order.toAsset ∈ [order.fromAsset, order.toAsset] :=
    List.mem_cons_of_mem _ List.mem_cons_self
  have hmown' : Frame [order.owner] [order.fromAsset, order.toAsset] mown.ledger mown'.ledger := by
    rcases hmow' with ⟨-, hmow'⟩ | ⟨-, rfl⟩
    · exact mow hi hmow'
    · exact refl _
  have hremoved := removeEach hi ha (removeMultiple_stages hremove).2
  exact (mow hi hmow).trans (hmown'.trans (hremoved.trans ((debitValue hi hdebit).trans
    ((burnStalk hi hburn).trans ((addPositionAt hi ha' hadd).trans
      ((creditValue hi hbook).trans (mintStalk hi hmint)))))))

/-- Planting names the base asset, and no account but its own. -/
theorem plant {out : Outcome PlantReceipt} (h : Action.plant id ledger = .ok out) :
    Frame [id] [ledger.charter.baseAsset] ledger out.ledger := by
  obtain ⟨mown, quantity, entry, hmow, -, -, hplant⟩ := plant_stages h
  have hi : id ∈ [id] := List.mem_singleton_self id
  rcases hplant with ⟨-, rfl⟩ | ⟨stalk, pool, tip, added, booked, credited, event, -, -, -, hadd,
    hbook, hcredit, -, rfl⟩
  · exact mow hi hmow
  · exact (mow hi hmow).trans ((withTotals _).trans
      ((addPositionAt hi (List.mem_singleton_self _) hadd).trans
        ((creditValue hi hbook).trans (creditStalk hi hcredit))))

/-- An import has the frame of a deposit. -/
theorem importLegacy {epoch : Epoch} {quantity value : Amount} {out : Outcome Index}
    (h : Action.importLegacy owner asset epoch quantity value ledger = .ok out) :
    Frame [owner] [asset] ledger out.ledger := by
  obtain ⟨terms, index, mown, legacyDeposits, entry, entry', booked, base, grown, stalk, minted,
    event, -, -, -, -, -, hmow, hput, hentry, htake, hbook, -, -, -, hmint, -, rfl⟩ :=
    importLegacy_stages h
  have hi : owner ∈ [owner] := List.mem_singleton_self owner
  have ha : asset ∈ [asset] := List.mem_singleton_self asset
  have htaken : Frame [owner] [asset] { mown.ledger with legacyDeposits } _ :=
    withAsset ha hentry (Asset.emptied_of_take htake)
  exact (mow hi hmow).trans ((putLegacy ⟨owner, asset, epoch⟩ hi hput).trans
    (htaken.trans ((creditValue hi hbook).trans (mintStalk hi hmint))))

/-- A migration names its owner and its asset, and moves positions of the one in the other. -/
theorem migrate {epochs : List Epoch} {out : Outcome (List Index)}
    (h : Action.migrate owner asset epochs ledger = .ok out) :
    Frame [owner] [asset] ledger out.ledger := by
  obtain ⟨terms, mown, moved, -, hmow, hmove, rfl⟩ := migrate_stages h
  have hi : owner ∈ [owner] := List.mem_singleton_self owner
  have hmoved : Frame [owner] [asset] mown.ledger moved.ledger := migrateEach hi hmove
  exact (mow hi hmow).trans hmoved

/-- A claim names no asset at all. -/
theorem claimFlood {out : Outcome Amount} (h : Action.claimFlood id ledger = .ok out) :
    Frame [id] [] ledger out.ledger := by
  obtain ⟨updated, totalClaimed, hupdate, -, -, rfl⟩ := claimFlood_stages h
  have hi : id ∈ [id] := List.mem_singleton_self id
  exact (update hi hupdate).trans ((withAccount hi _).trans (withFloodBook _ rfl))

/-- A reward joins the pool in the totals of the ledger, and belongs to nobody yet. -/
theorem receiveReward {quantity : Amount} {out : Outcome Unit}
    (h : Action.receiveReward quantity ledger = .ok out) : Frame [] [] ledger out.ledger := by
  rcases receiveReward_stages h with ⟨-, rfl⟩ | ⟨_, _, _, _, -, -, -, -, rfl⟩
  · exact refl ledger
  · exact withTotals _

end Ledger.Frame

/-! ### What a request names -/

namespace Call

/-- The accounts that a call changes something for. -/
def accounts : Call → List AccountId
  | .deposit owner _ _ | .withdraw owner _ _ _ _ _ | .importLegacy owner _ _ _ _
  | .migrate owner _ _ => [owner]
  | .convert order => [order.owner]
  | .transfer sender recipient _ _ _ => [sender, recipient]
  | .mow account _ | .plant account | .claim account _ _ => [account]
  | _ => []

/-- The assets that a call moves for an account; planting moves the base asset. -/
def assets (charter : Charter) : Call → List AssetId
  | .deposit _ asset _ | .withdraw _ asset _ _ _ _ | .transfer _ _ asset _ _
  | .importLegacy _ asset _ _ _ | .migrate _ asset _ | .mow _ asset => [asset]
  | .convert order => [order.fromAsset, order.toAsset]
  | .plant _ => [charter.baseAsset]
  | _ => []

/-- Whether a call can change how far or how fast an asset grows. -/
def retunes : Call → Bool
  | .dewhitelist _ | .setAccrualRate _ _ | .advanceEpoch _ => true
  | _ => false

end Call

namespace Request

/-- The accounts that a request changes something for. -/
def accounts : Request → List AccountId
  | .call asked => asked.accounts
  | _ => []

/-- The assets that a request moves for an account. -/
def assets (charter : Charter) : Request → List AssetId
  | .call asked => asked.assets charter
  | _ => []

/-- Whether a request can change how far or how fast an asset grows. -/
def retunes : Request → Bool
  | .whitelist _ _ _ => true
  | .register _ _ => false
  | .call asked => asked.retunes

/-- Such a request is made for no account. -/
theorem accounts_of_retunes {request : Request} (h : request.retunes = true) :
    request.accounts = [] := by
  cases request with
  | whitelist | register => rfl
  | call call =>
    cases call with
    | dewhitelist | setAccrualRate | advanceEpoch => rfl
    | _ => cases h

end Request

namespace Vault

open StalkLedger.Action
open Ledger (Frame SameBooks)

variable {α : Type} {vault : Vault}

/-! ### Requests -/

/-- What is so of the ledger, whether a change is refused or made. -/
theorem Changed.holds {action : Action α} {completion : Completion α} {after : Vault}
    {P : Ledger → Prop} (h : Changed action vault completion after) (refused : P vault.ledger)
    (made : ∀ {out}, action vault.ledger = .ok out → P out.ledger) : P after.ledger := by
  cases h with
  | refused fault hc hl he =>
    rw [hl]
    exact refused
  | made out h hc hl he =>
    rw [hl]
    exact made h

/-- While no change is in progress, a call has the frame of what it names, whether it is refused or
made.  Calls that change how assets grow are left to `handle_books`. -/
theorem serve_frame (hentered : vault.entered = false) {call : Call} (h : call.retunes = false) :
    Frame call.accounts (call.assets vault.ledger.charter) vault.ledger
      (serve call vault).2.ledger := by
  cases call with
  | dewhitelist | setAccrualRate | advanceEpoch => cases h
  | query | drainEvents => exact .refl _
  | receiveReward => exact (transact_changed hentered).holds (.refl _) .receiveReward
  | deposit =>
    refine (transact_changed hentered).holds (.refl _) fun h => ?_
    obtain ⟨value, -, hdeposit⟩ := lift_bind.mp h
    exact .deposit hdeposit
  | withdraw =>
    rw [serve_withdraw]
    exact (withdraw_changed hentered).holds (.refl _) .withdraw
  | convert => exact (transact_changed hentered).holds (.refl _) .convert
  | transfer => exact (transact_changed hentered).holds (.refl _) .transfer
  | importLegacy => exact (transact_changed hentered).holds (.refl _) .importLegacy
  | migrate => exact (transact_changed hentered).holds (.refl _) .migrate
  | mow =>
    exact (transact_changed hentered).holds (.refl _) (.mow (List.mem_singleton_self _))
  | plant => exact (transact_changed hentered).holds (.refl _) .plant
  | claim =>
    rw [serve_claim]
    exact (claim_changed hentered).holds (.refl _) .claimFlood

/-- The registration of a valuation is not entered in the ledger. -/
theorem register_frame (asset : AssetId) (valuation : Valuation) :
    (vault.register asset valuation).2.ledger = vault.ledger := by
  unfold register
  split <;> rfl

/-- Listing an asset changes the ledger as the action does; the valuation is kept beside it. -/
theorem whitelist_changed (hentered : vault.entered = false) (asset : AssetId) (terms : AssetTerms)
    (valuation : Valuation) :
    Changed (Action.whitelist asset terms) vault (vault.whitelist asset terms valuation).1
      (vault.whitelist asset terms valuation).2 := by
  have hchanged : Changed (Action.whitelist asset terms) vault _ _ := transact_changed hentered
  unfold Vault.whitelist
  revert hchanged
  rcases vault.transact (Action.whitelist asset terms) with ⟨⟨_ | _, gained⟩, after⟩
  · exact id
  · rintro (⟨_, hc, hl, he⟩ | ⟨out, h, hc, hl, he⟩)
    · exact .refused _ hc hl he
    · exact .made out h hc hl he

/-- While a change is in progress no request changes the ledger. -/
theorem handle_of_entered (hentered : vault.entered = true) (request : Request) :
    (handle request vault).2.ledger = vault.ledger := by
  cases request with
  | whitelist asset terms valuation =>
    rw [handle, whitelist, transact_of_entered hentered]
    rfl
  | register asset valuation => exact register_frame asset valuation
  | call call => exact (serve_of_entered hentered call).1

/-- A request has the frame of what it names, also while a change is in progress. -/
theorem handle_frame (vault : Vault) {request : Request} (h : request.retunes = false) :
    Frame request.accounts (request.assets vault.ledger.charter) vault.ledger
      (handle request vault).2.ledger := by
  cases hentered : vault.entered with
  | true =>
    rw [handle_of_entered hentered]
    exact .refl _
  | false =>
    cases request with
    | whitelist => cases h
    | register asset valuation =>
      have hledger : (handle (.register asset valuation) vault).2.ledger = vault.ledger :=
        register_frame asset valuation
      rw [hledger]
      exact .refl _
    | call call => exact serve_frame hentered h

/-- A change of the registry, or a report of the clock, touches no account. -/
theorem handle_books (vault : Vault) {request : Request} (h : request.retunes = true) :
    SameBooks vault.ledger (handle request vault).2.ledger := by
  cases hentered : vault.entered with
  | true =>
    rw [handle_of_entered hentered]
    exact .refl _
  | false =>
    cases request with
    | whitelist asset terms valuation =>
      refine (whitelist_changed hentered asset terms valuation).holds (.refl _) fun h => ?_
      obtain ⟨-, -, -, rfl⟩ := whitelist_stages h
      exact ⟨rfl, rfl, rfl⟩
    | register => cases h
    | call call =>
      cases call with
      | dewhitelist =>
        refine (transact_changed hentered).holds (.refl _) fun h => ?_
        obtain ⟨_, -, rfl⟩ := dewhitelist_stages h
        exact ⟨rfl, rfl, rfl⟩
      | setAccrualRate =>
        refine (transact_changed hentered).holds (.refl _) fun h => ?_
        obtain ⟨-, _, -, rfl⟩ := setAccrualRate_stages h
        exact ⟨rfl, rfl, rfl⟩
      | advanceEpoch =>
        refine (transact_changed hentered).holds (.refl _) fun h => ?_
        rcases advanceEpoch_frame h with heq | ⟨_, _, _, _, -, -, heq⟩
        · rw [heq]
          exact .refl _
        · rw [heq]
          exact ⟨rfl, rfl, rfl⟩
      | _ => cases h

/-- **What a request leaves alone**, whether or not it succeeds.  For an account that it does not
name the record is the same, and so are the positions in both stores.  If it names an account, the
entries of the assets that it does not name are the same.  If it names none, the table of accounts
and both stores are the same.  Rates and indices only change by a change of the registry or by a
report of the clock. -/
theorem operations_framed (vault : Vault) (request : Request) :
    let before := vault.ledger
    let after := (handle request vault).2.ledger
    (∀ id ∉ request.accounts, after.accounts.get? id = before.accounts.get? id ∧
      (∀ asset index, after.positionAt id asset index = before.positionAt id asset index) ∧
      ∀ asset epoch, after.legacyPosition id asset epoch = before.legacyPosition id asset epoch) ∧
    (request.accounts ≠ [] → ∀ asset ∉ request.assets before.charter,
      after.assets.get? asset = before.assets.get? asset) ∧
    (request.accounts = [] → after.accounts = before.accounts ∧ after.deposits = before.deposits ∧
      after.legacyDeposits = before.legacyDeposits) ∧
    (request.retunes = false → ∀ asset,
      (after.assets.get? asset).map (fun entry => (entry.accrualRate, entry.accrualIndex)) =
        (before.assets.get? asset).map fun entry => (entry.accrualRate, entry.accrualIndex)) := by
  intro before after
  -- What changes how assets grow names no account; anything else has the frame of what it names.
  cases hretunes : request.retunes with
  | true =>
    obtain ⟨haccounts, hdeposits, hlegacy⟩ := handle_books vault hretunes
    refine ⟨fun id _ => ⟨?_, fun asset index => ?_, fun asset epoch => ?_⟩, fun hnamed => ?_,
      fun _ => ⟨haccounts, hdeposits, hlegacy⟩, nofun⟩
    · rw [haccounts]
    · rw [Ledger.positionAt, hdeposits, Ledger.positionAt]
    · rw [Ledger.legacyPosition, hlegacy, Ledger.legacyPosition]
    · exact absurd (Request.accounts_of_retunes hretunes) hnamed
  | false =>
    have hframe := handle_frame vault hretunes
    refine ⟨fun id hid => ⟨hframe.account id hid, fun asset index => hframe.deposits _ hid,
      fun asset epoch => hframe.legacyDeposits _ hid⟩, fun _ => hframe.entry, fun hnone => ?_,
      fun _ asset => ?_⟩
    · rw [hnone] at hframe
      obtain ⟨haccounts, hdeposits, hlegacy⟩ := hframe.books
      exact ⟨haccounts, hdeposits, hlegacy⟩
    · have hentry := congrArg (Option.map fun entry => (entry.accrualRate, entry.accrualIndex))
        (hframe.assets asset)
      rwa [Option.map_map, Option.map_map] at hentry

/-- A flood is on, and there is a second asset, of which account 7 holds some. -/
def twoAssetRequests : List Request :=
  sampleRequests.take 4 ++ [.whitelist 2 ⟨100, 1, none⟩ .unit, .call (.deposit 7 2 9)]

/-- Account 8 deposits in asset 1, which leaves account 7 and asset 2 alone; then the next epoch is
reported, which leaves all accounts alone. -/
theorem operations_framed_sample :
    ((run twoAssetRequests sample).2.ledger.assets.get? 2).map (·.totalQuantity) = some 9 ∧
    let vault := (run twoAssetRequests sample).2
    let deposit : Request := .call (.deposit 8 1 5)
    let report : Request := .call (.advanceEpoch ⟨13, false, 0, 0⟩)
    (7 ∉ deposit.accounts ∧
      (handle deposit vault).2.ledger.accounts.get? 7 = vault.ledger.accounts.get? 7 ∧
      (∀ asset index, (handle deposit vault).2.ledger.positionAt 7 asset index =
        vault.ledger.positionAt 7 asset index) ∧
      ∀ asset epoch, (handle deposit vault).2.ledger.legacyPosition 7 asset epoch =
        vault.ledger.legacyPosition 7 asset epoch) ∧
    (deposit.accounts ≠ [] ∧ 2 ∉ deposit.assets vault.ledger.charter ∧
      (handle deposit vault).2.ledger.assets.get? 2 = vault.ledger.assets.get? 2) ∧
    (report.accounts = [] ∧ (handle report vault).2.ledger.accounts = vault.ledger.accounts ∧
      (handle report vault).2.ledger.deposits = vault.ledger.deposits ∧
      (handle report vault).2.ledger.legacyDeposits = vault.ledger.legacyDeposits) ∧
    deposit.retunes = false ∧
      ((handle deposit vault).2.ledger.assets.get? 1).map
          (fun entry => (entry.accrualRate, entry.accrualIndex)) =
        (vault.ledger.assets.get? 1).map fun entry => (entry.accrualRate, entry.accrualIndex) := by
  refine ⟨by decide +kernel, ?_⟩
  intro vault deposit report
  have hdeposit := operations_framed vault deposit
  have hreport := operations_framed vault report
  have hother : 7 ∉ deposit.accounts := by decide
  have hasset : 2 ∉ deposit.assets vault.ledger.charter := by decide
  exact ⟨⟨hother, hdeposit.1 7 hother⟩,
    ⟨List.cons_ne_nil 8 [], hasset, hdeposit.2.1 (List.cons_ne_nil 8 []) 2 hasset⟩,
    ⟨rfl, hreport.2.2.1 rfl⟩, rfl, hdeposit.2.2.2 rfl 1⟩

end Vault

end StalkLedger
