import StalkLedger.Proofs.Step
import StalkLedger.Clock
import StalkLedger.Flow.Conversion
import StalkLedger.Registry

/-!
# The stages of the flows

A flow that succeeded has gone through its stages.  For each flow, one law names the outcome of every
stage and what the flow computed in between; the events of the flow are those of its stages, one
after the other.
-/

namespace StalkLedger.Action

variable {ledger : Ledger}

/-! ### Mowing, entering and removing -/

/-- An account is mown in two stages: its flood balance is brought up to date, and then its growth
in the asset is credited, on the ledger that the first stage leaves. Only the second stage has
events. -/
theorem mow_stages {id : AccountId} {asset : AssetId} {out : Outcome Amount}
    (h : mow id asset ledger = .ok out) : ∃ updated,
      updateAccount id ledger = .ok updated ∧ creditGrowth id asset updated.ledger = .ok out :=
  (updateAccount_silent id).bind.mp h

/-- A position that is added goes to the index at which its asset stands. -/
theorem addPosition_stages {owner : AccountId} {asset : AssetId} {position : Position}
    {out : Outcome Index} (h : addPosition owner asset position ledger = .ok out) :
    ∃ entry added, ledger.asset asset = .ok entry ∧
      addPositionAt ⟨owner, asset, entry.accrualIndex⟩ position ledger = .ok added ∧
        out = ⟨entry.accrualIndex, added.ledger, added.events⟩ := by
  simp only [addPosition, ledger_bind, lift_bind, Ledger.accrualIndex, bind_eq_ok,
    StalkLedger.pure_eq_ok, bind_pure_eq_ok] at h
  obtain ⟨_, ⟨entry, he, rfl⟩, added, ha, rfl⟩ := h
  exact ⟨entry, added, he, ha, rfl⟩

/-- A removal of several has as many amounts as indices, and takes them out one after the other. -/
theorem removeMultiple_stages {owner : AccountId} {asset : AssetId} {indices : List Index}
    {amounts : List Amount} {out : Outcome Removal}
    (h : removeMultiple owner asset indices amounts ledger = .ok out) :
    indices.length = amounts.length ∧
      removeEach owner asset (indices.zip amounts) .none ledger = .ok out := by
  obtain ⟨_, hcheck, hremove⟩ := lift_bind.mp h
  refine ⟨?_, hremove⟩
  unfold checkLengths at hcheck
  split at hcheck
  · cases hcheck
  · exact not_not.mp ‹_›

/-! ### Deposits and withdrawals -/

/-- A deposit into an open asset mows its owner, adds the position at the tip, books its value at
the checkpoint, and mints the stalk of the value at the price of the asset. The receipt tells of
these, and the events are those of the mowing, of the position and of the stalk. -/
theorem deposit_stages {owner : AccountId} {asset : AssetId} {quantity value : Amount}
    {out : Outcome DepositReceipt} (h : deposit owner asset quantity value ledger = .ok out) :
    ∃ mown tip added booked entry stalk minted,
      ledger.requireOpen asset = .ok () ∧ mow owner asset ledger = .ok mown ∧
        mown.ledger.asset asset = .ok tip ∧
        addPositionAt ⟨owner, asset, tip.accrualIndex⟩ ⟨quantity, value⟩ mown.ledger =
          .ok added ∧
        creditValue owner asset value added.ledger = .ok booked ∧
        booked.ledger.asset asset = .ok entry ∧ value.mul entry.stalkPerValue = .ok stalk ∧
        mintStalk owner stalk booked.ledger = .ok minted ∧
        out = ⟨⟨Slot.positionId ⟨owner, asset, tip.accrualIndex⟩, tip.accrualIndex, quantity,
          value, stalk, minted.result⟩, minted.ledger,
          mown.events ++ (added.events ++ minted.events)⟩ := by
  obtain ⟨_, hopen, h₁⟩ := lift_bind.mp (ledger_bind.mp h)
  obtain ⟨mown, _, hmow, h₂, rfl⟩ := bind_apply_ok.mp h₁
  obtain ⟨_, _, haddition, h₃, rfl⟩ := bind_apply_ok.mp h₂
  obtain ⟨tip, added, htip, hadd, rfl⟩ := addPosition_stages haddition
  obtain ⟨booked, hbook, h₄⟩ := (creditValue_silent owner asset value).bind.mp h₃
  obtain ⟨entry, hentry, h₅⟩ := lift_bind.mp (ledger_bind.mp h₄)
  obtain ⟨stalk, hstalk, h₆⟩ := lift_bind.mp h₅
  obtain ⟨minted, hmint, rfl⟩ := bind_pure_eq_ok.mp h₆
  exact ⟨mown, tip, added, booked, entry, stalk, minted, hopen, hmow, htip, hadd, hbook, hentry,
    hstalk, hmint, rfl⟩

/-- A withdrawal mows its owner, takes the amounts out, and takes off the account what they
carried: their value at the checkpoint, and the stalk that belongs to it at the tip, grown stalk
included. -/
theorem withdraw_stages {owner : AccountId} {asset : AssetId} {indices : List Index}
    {amounts : List Amount} {out : Outcome WithdrawReceipt}
    (h : withdraw owner asset indices amounts ledger = .ok out) :
    ∃ mown removed entry carried debited burned,
      mow owner asset ledger = .ok mown ∧
        removeMultiple owner asset indices amounts mown.ledger = .ok removed ∧
        removed.ledger.asset asset = .ok entry ∧
        entry.stalkOf indices removed.result = .ok carried ∧
        debitValue owner asset removed.result.totalValue removed.ledger = .ok debited ∧
        burnStalk owner carried.stalk debited.ledger = .ok burned ∧
        out = ⟨⟨asset, removed.result.totalQuantity, removed.result.totalValue, carried.stalk,
          burned.result⟩, burned.ledger, mown.events ++ (removed.events ++ burned.events)⟩ := by
  obtain ⟨mown, _, hmow, h₁, rfl⟩ := bind_apply_ok.mp h
  obtain ⟨removed, _, hremove, h₂, rfl⟩ := bind_apply_ok.mp h₁
  obtain ⟨entry, hentry, h₃⟩ := lift_bind.mp (ledger_bind.mp h₂)
  obtain ⟨carried, hcarried, h₄⟩ := lift_bind.mp h₃
  obtain ⟨debited, hdebit, h₅⟩ := (debitValue_silent owner asset _).bind.mp h₄
  obtain ⟨burned, hburn, rfl⟩ := bind_pure_eq_ok.mp h₅
  exact ⟨mown, removed, entry, carried, debited, burned, hmow, hremove, hentry, hcarried, hdebit,
    hburn, rfl⟩

/-- A withdrawal goes through if each of its steps does. -/
theorem withdraw_of_stages {owner : AccountId} {asset : AssetId} {indices : List Index}
    {amounts : List Amount} {mown : Outcome Amount} {removed : Outcome Removal}
    {entry : Asset} {carried : CarriedStalk} {debited : Outcome Unit} {burned : Outcome Amount}
    (hmow : mow owner asset ledger = .ok mown)
    (hremove : removeMultiple owner asset indices amounts mown.ledger = .ok removed)
    (hentry : removed.ledger.asset asset = .ok entry)
    (hcarried : entry.stalkOf indices removed.result = .ok carried)
    (hdebit : debitValue owner asset removed.result.totalValue removed.ledger = .ok debited)
    (hburn : burnStalk owner carried.stalk debited.ledger = .ok burned) :
    withdraw owner asset indices amounts ledger =
      .ok ⟨⟨asset, removed.result.totalQuantity, removed.result.totalValue, carried.stalk,
        burned.result⟩, burned.ledger, mown.events ++ (removed.events ++ burned.events)⟩ :=
  bind_apply_ok.mpr ⟨mown, _, hmow, bind_apply_ok.mpr ⟨removed, _, hremove,
    ledger_bind.mpr (lift_bind.mpr ⟨entry, hentry, lift_bind.mpr ⟨carried, hcarried,
      (debitValue_silent owner asset _).bind.mpr ⟨debited, hdebit,
        bind_pure_eq_ok.mpr ⟨burned, hburn, rfl⟩⟩⟩⟩), rfl⟩, rfl⟩

/-! ### Transfers -/

/-- Between two accounts that are realized, what the sender gives up is entered for the recipient
index by index, at the values that were removed. Then value and stalk follow: each is taken off the
sender and credited to the recipient. -/
theorem transferRealized_stages {sender recipient : AccountId} {asset : AssetId}
    {indices : List Index} {amounts : List Amount} {out : Outcome TransferReceipt}
    (h : transferRealized sender recipient asset indices amounts ledger = .ok out) :
    ∃ removed received entry carried debited credited handed,
      removeMultiple sender asset indices amounts ledger = .ok removed ∧
        receiveEach sender recipient asset
          (indices.zip (amounts.zip removed.result.values)) removed.ledger = .ok received ∧
        received.ledger.asset asset = .ok entry ∧
        entry.stalkOf indices removed.result = .ok carried ∧
        debitValue sender asset removed.result.totalValue received.ledger = .ok debited ∧
        creditValue recipient asset removed.result.totalValue debited.ledger = .ok credited ∧
        transferStalk sender recipient carried.stalk credited.ledger = .ok handed ∧
        out = ⟨⟨removed.result.totalQuantity, removed.result.totalValue, carried.stalk,
          handed.result⟩, handed.ledger, removed.events ++ (received.events ++ handed.events)⟩ := by
  obtain ⟨_, -, h₁⟩ := lift_bind.mp h
  obtain ⟨-, h₂⟩ := ensureCurrent_bind.mp h₁
  obtain ⟨removed, _, hremove, h₃, rfl⟩ := bind_apply_ok.mp h₂
  obtain ⟨received, _, hreceive, h₄, rfl⟩ := bind_apply_ok.mp h₃
  obtain ⟨entry, hentry, h₅⟩ := lift_bind.mp (ledger_bind.mp h₄)
  obtain ⟨carried, hcarried, h₆⟩ := lift_bind.mp h₅
  obtain ⟨debited, hdebit, h₇⟩ := (debitValue_silent sender asset _).bind.mp h₆
  obtain ⟨credited, hcredit, h₈⟩ := (creditValue_silent recipient asset _).bind.mp h₇
  obtain ⟨handed, hhand, rfl⟩ := bind_pure_eq_ok.mp h₈
  exact ⟨removed, received, entry, carried, debited, credited, handed, hremove, hreceive, hentry,
    hcarried, hdebit, hcredit, hhand, rfl⟩

/-- A transfer mows the sender, then the recipient, and hands over on the ledger that is left. -/
theorem transfer_stages {sender recipient : AccountId} {asset : AssetId} {indices : List Index}
    {amounts : List Amount} {out : Outcome TransferReceipt}
    (h : transfer sender recipient asset indices amounts ledger = .ok out) :
    ∃ mown mown' moved, mow sender asset ledger = .ok mown ∧
      mow recipient asset mown.ledger = .ok mown' ∧
      transferRealized sender recipient asset indices amounts mown'.ledger = .ok moved ∧
      out = ⟨moved.result, moved.ledger, mown.events ++ (mown'.events ++ moved.events)⟩ := by
  obtain ⟨mown, _, hmow, h₁, rfl⟩ := bind_apply_ok.mp h
  obtain ⟨mown', moved, hmow', h₂, rfl⟩ := bind_apply_ok.mp h₁
  exact ⟨mown, mown', moved, hmow, hmow', h₂, rfl⟩

/-! ### Conversions -/

/-- The first half of a conversion is a withdrawal without mowing: positions, value and stalk are
taken off the account, and what was carried is kept for the second half. -/
theorem retire_stages {order : ConversionOrder} {out : Outcome Retired}
    (h : retire order ledger = .ok out) :
    ∃ removed entry carried debited burned,
      removeMultiple order.owner order.fromAsset order.indices order.amounts ledger =
          .ok removed ∧
        removed.ledger.asset order.fromAsset = .ok entry ∧
        entry.stalkOf order.indices removed.result = .ok carried ∧
        debitValue order.owner order.fromAsset removed.result.totalValue removed.ledger =
          .ok debited ∧
        burnStalk order.owner carried.stalk debited.ledger = .ok burned ∧
        out = ⟨⟨removed.result, carried⟩, burned.ledger, removed.events ++ burned.events⟩ := by
  obtain ⟨_, -, h₁⟩ := lift_bind.mp h
  obtain ⟨removed, _, hremove, h₂, rfl⟩ := bind_apply_ok.mp h₁
  split at h₂
  · cases h₂
  obtain ⟨entry, hentry, h₃⟩ := lift_bind.mp (ledger_bind.mp h₂)
  obtain ⟨carried, hcarried, h₄⟩ := lift_bind.mp h₃
  obtain ⟨debited, hdebit, h₅⟩ := (debitValue_silent order.owner order.fromAsset _).bind.mp h₄
  obtain ⟨burned, hburn, rfl⟩ := bind_pure_eq_ok.mp h₅
  exact ⟨removed, entry, carried, debited, burned, hremove, hentry, hcarried, hdebit, hburn, rfl⟩

/-- The second half of a conversion goes back from the tip of the target asset as far as the
retired growth allows at the new value. What does not come to a whole step is forfeited, and the
stalk that is minted is that of the value and of the growth that is carried over. -/
theorem enter_stages {order : ConversionOrder} {retired : Retired} {value : Amount}
    {out : Outcome ConversionReceipt} (h : enter order retired value ledger = .ok out) :
    ∃ target backdate forfeited base stalk added booked minted event,
      ledger.asset order.toAsset = .ok target ∧
        indexForGrown target.accrualIndex retired.carried.grown value = .ok backdate ∧
        retired.carried.grown.sub backdate.carried = .ok forfeited ∧
        value.mul target.stalkPerValue = .ok base ∧ base.add backdate.carried = .ok stalk ∧
        addPositionAt ⟨order.owner, order.toAsset, backdate.index⟩ ⟨order.toQuantity, value⟩
          ledger = .ok added ∧
        creditValue order.owner order.toAsset value added.ledger = .ok booked ∧
        mintStalk order.owner stalk booked.ledger = .ok minted ∧
        event = Event.converted order.owner order.fromAsset order.toAsset
          retired.removal.totalQuantity retired.removal.totalValue backdate.index order.toQuantity
          value backdate.carried forfeited ∧
        out = ⟨⟨backdate.index, order.toQuantity, value, retired.removal.totalQuantity,
          retired.removal.totalValue, backdate.carried, forfeited, retired.carried.stalk, stalk⟩,
          minted.ledger, added.events ++ (minted.events ++ ⟨[event minted.ledger.epoch]⟩)⟩ := by
  obtain ⟨target, htarget, h₁⟩ := lift_bind.mp (ledger_bind.mp h)
  obtain ⟨backdate, hbackdate, h₂⟩ := lift_bind.mp h₁
  obtain ⟨forfeited, hforfeited, h₃⟩ := lift_bind.mp h₂
  obtain ⟨base, hbase, h₄⟩ := lift_bind.mp h₃
  obtain ⟨stalk, hstalk, h₅⟩ := lift_bind.mp h₄
  obtain ⟨added, _, hadd, h₆, rfl⟩ := bind_apply_ok.mp h₅
  obtain ⟨booked, hbook, h₇⟩ := (creditValue_silent order.owner order.toAsset value).bind.mp h₆
  obtain ⟨minted, _, hmint, h₈, rfl⟩ := bind_apply_ok.mp h₇
  obtain ⟨noted, hnote, rfl⟩ := bind_pure_eq_ok.mp h₈
  obtain rfl := emit_eq_ok.mp hnote
  exact ⟨target, backdate, forfeited, base, stalk, added, booked, minted, _, htarget, hbackdate,
    hforfeited, hbase, hstalk, hadd, hbook, hmint, rfl, rfl⟩

/-- A conversion into an open asset mows the account in both assets, retires its positions, values the
new quantity, and enters it at that value or at the one removed, whichever is more.  The second
mowing is left out where an asset is converted into itself. -/
theorem convert_stages {order : ConversionOrder} {valueOf : Amount → Except Fault Amount}
    {out : Outcome ConversionReceipt} (h : convert order valueOf ledger = .ok out) :
    ∃ mown mown' retired recomputed entered, ledger.requireOpen order.toAsset = .ok () ∧
      mow order.owner order.fromAsset ledger = .ok mown ∧
      (order.toAsset ≠ order.fromAsset ∧
          mow order.owner order.toAsset mown.ledger = .ok mown' ∨
        order.toAsset = order.fromAsset ∧ mown' = ⟨mown.result, mown.ledger, ∅⟩) ∧
      retire order mown'.ledger = .ok retired ∧ valueOf order.toQuantity = .ok recomputed ∧
      enter order retired.result (max recomputed retired.result.removal.totalValue)
        retired.ledger = .ok entered ∧
      out = ⟨entered.result, entered.ledger,
        mown.events ++ (mown'.events ++ (retired.events ++ entered.events))⟩ := by
  unfold convert at h
  split at h
  · cases h
  obtain ⟨_, hopen, h₁⟩ := lift_bind.mp (ledger_bind.mp h)
  obtain ⟨mown, _, hmow, h₂, rfl⟩ := bind_apply_ok.mp h₁
  -- What follows the second mowing, whether or not it takes place.
  have rest {ledger out} (h : (do
      let retired ← retire order
      let recomputed ← valueOf order.toQuantity
      let value := max recomputed retired.removal.totalValue
      if order.toQuantity = 0 ∨ value = 0 then
        fail (.zeroValueConversion order.toAsset order.toQuantity value)
      else
        enter order retired value : Action ConversionReceipt) ledger = .ok out) :
      ∃ retired recomputed entered, retire order ledger = .ok retired ∧
        valueOf order.toQuantity = .ok recomputed ∧
        enter order retired.result (max recomputed retired.result.removal.totalValue)
          retired.ledger = .ok entered ∧
        out = ⟨entered.result, entered.ledger, retired.events ++ entered.events⟩ := by
    obtain ⟨retired, entered, hretire, h₃, rfl⟩ := bind_apply_ok.mp h
    obtain ⟨recomputed, hvalue, h₄⟩ := lift_bind.mp h₃
    split at h₄
    · cases h₄
    · exact ⟨retired, recomputed, entered, hretire, hvalue, h₄, rfl⟩
  simp only at h₂
  split at h₂
  next hne =>
    obtain ⟨mown', _, hmow', h₃, rfl⟩ := bind_apply_ok.mp h₂
    obtain ⟨retired, recomputed, entered, hretire, hvalue, henter, rfl⟩ := rest h₃
    exact ⟨mown, mown', retired, recomputed, entered, hopen, hmow, .inl ⟨hne, hmow'⟩, hretire,
      hvalue, henter, rfl⟩
  next heq =>
    obtain ⟨retired, recomputed, entered, hretire, hvalue, henter, rfl⟩ := rest h₂
    exact ⟨mown, _, retired, recomputed, entered, hopen, hmow, .inr ⟨not_not.mp heq, rfl⟩, hretire,
      hvalue, henter, rfl⟩

/-! ### Planting -/

/-- Planting nothing is mowing; otherwise a share of the pool becomes a position at the tip. -/
theorem plant_stages {id : AccountId} {out : Outcome PlantReceipt}
    (h : plant id ledger = .ok out) : ∃ mown quantity entry,
      mow id ledger.charter.baseAsset ledger = .ok mown ∧
      mown.ledger.earnedBalance id = .ok quantity ∧
      mown.ledger.asset ledger.charter.baseAsset = .ok entry ∧
      (quantity = 0 ∧ out = ⟨⟨0, entry.accrualIndex, 0⟩, mown.ledger, mown.events⟩ ∨
        ∃ stalk pool tip added booked credited event,
          quantity.mul entry.stalkPerValue = .ok stalk ∧
          mown.ledger.totals.earnedPool.sub quantity = .ok pool ∧
          mown.ledger.asset ledger.charter.baseAsset = .ok tip ∧
          addPositionAt ⟨id, ledger.charter.baseAsset, tip.accrualIndex⟩ ⟨quantity, quantity⟩
            { mown.ledger with totals := { mown.ledger.totals with earnedPool := pool } } =
            .ok added ∧
          creditValue id ledger.charter.baseAsset quantity added.ledger = .ok booked ∧
          creditStalk id stalk 0 booked.ledger = .ok credited ∧
          event = Event.planted id tip.accrualIndex quantity stalk ∧
          out = ⟨⟨quantity, tip.accrualIndex, stalk⟩, credited.ledger, mown.events ++
            (added.events ++ (credited.events ++ ⟨[event credited.ledger.epoch]⟩))⟩) := by
  obtain ⟨mown, _, hmow, h₁, rfl⟩ := bind_apply_ok.mp (ledger_bind.mp h)
  obtain ⟨quantity, hquantity, h₂⟩ := lift_bind.mp (ledger_bind.mp h₁)
  obtain ⟨entry, hentry, h₃⟩ := lift_bind.mp h₂
  refine ⟨mown, quantity, entry, hmow, hquantity, hentry, ?_⟩
  split at h₃
  next hzero =>
    obtain rfl := pure_eq_ok.mp h₃
    exact .inl ⟨hzero, by simp⟩
  next =>
    obtain ⟨stalk, hstalk, h₄⟩ := lift_bind.mp h₃
    obtain ⟨pool, hpool, h₅⟩ := lift_bind.mp h₄
    obtain ⟨_, _, haddition, h₆, rfl⟩ := bind_apply_ok.mp (setTotals_bind.mp h₅)
    obtain ⟨tip, added, htip, hadd, rfl⟩ := addPosition_stages haddition
    obtain ⟨booked, hbook, h₇⟩ := (creditValue_silent id _ quantity).bind.mp h₆
    obtain ⟨credited, _, hcredit, h₈, rfl⟩ := bind_apply_ok.mp h₇
    obtain ⟨noted, hnote, rfl⟩ := bind_pure_eq_ok.mp h₈
    obtain rfl := emit_eq_ok.mp hnote
    exact .inr ⟨stalk, pool, tip, added, booked, credited, _, hstalk, hpool, htip, hadd, hbook,
      hcredit, rfl, rfl⟩

/-! ### Legacy positions -/

/-- An import enters a position in the legacy store, under a legacy epoch of an asset with legacy
terms. Totals, value and stalk follow as in a deposit, but the stalk includes what has grown since
the index that the epoch stands for. -/
theorem importLegacy_stages {owner : AccountId} {asset : AssetId} {legacyEpoch : Epoch}
    {quantity value : Amount} {out : Outcome Index}
    (h : importLegacy owner asset legacyEpoch quantity value ledger = .ok out) :
    ∃ terms index mown legacyDeposits entry entry' booked base grown stalk minted event,
      ledger.legacyTerms asset = .ok terms ∧ ledger.charter.isLegacy legacyEpoch = true ∧
      quantity ≠ 0 ∧ value ≠ 0 ∧ terms.indexOf ledger.charter legacyEpoch = .ok index ∧
      mow owner asset ledger = .ok mown ∧
      mown.ledger.legacyDeposits.put ⟨owner, asset, legacyEpoch⟩ ⟨quantity, value⟩ =
        .ok legacyDeposits ∧
      mown.ledger.asset asset = .ok entry ∧ entry.take ⟨quantity, value⟩ = .ok entry' ∧
      creditValue owner asset value
        ({ mown.ledger with legacyDeposits }.withAsset asset entry') = .ok booked ∧
      value.mul entry'.stalkPerValue = .ok base ∧
      grownReward entry'.accrualIndex index value = .ok grown ∧ base.add grown = .ok stalk ∧
      mintStalk owner stalk booked.ledger = .ok minted ∧
      event = Event.legacyPositionImported owner asset legacyEpoch index quantity value ∧
      out = ⟨index, minted.ledger,
        mown.events ++ (minted.events ++ ⟨[event minted.ledger.epoch]⟩)⟩ := by
  obtain ⟨terms, hterms, h₁⟩ := lift_bind.mp (ledger_bind.mp h)
  obtain ⟨_, hlegacy, h₂⟩ := lift_bind.mp h₁
  obtain ⟨position, hposition, h₃⟩ := lift_bind.mp h₂
  obtain ⟨index, hindex, h₄⟩ := lift_bind.mp h₃
  obtain ⟨mown, _, hmow, h₅, rfl⟩ := bind_apply_ok.mp h₄
  obtain ⟨-, h₆⟩ := ensureCurrent_bind.mp h₅
  obtain ⟨legacyDeposits, hput, h₇⟩ := lift_bind.mp (ledger_bind.mp h₆)
  obtain ⟨entry, hentry, h₈⟩ := lift_bind.mp h₇
  obtain ⟨entry', htake, h₉⟩ := lift_bind.mp h₈
  obtain ⟨booked, hbook, h₁₀⟩ :=
    (creditValue_silent owner asset value).bind.mp (setAsset_bind.mp (update_bind.mp h₉))
  obtain ⟨base, hbase, h₁₁⟩ := lift_bind.mp h₁₀
  obtain ⟨grown, hgrown, h₁₂⟩ := lift_bind.mp h₁₁
  obtain ⟨stalk, hstalk, h₁₃⟩ := lift_bind.mp h₁₂
  obtain ⟨minted, _, hmint, h₁₄, rfl⟩ := bind_apply_ok.mp h₁₃
  obtain ⟨noted, hnote, rfl⟩ := bind_pure_eq_ok.mp h₁₄
  obtain rfl := emit_eq_ok.mp hnote
  obtain ⟨hq, hv, rfl⟩ := Position.make_eq_ok.mp hposition
  exact ⟨terms, index, mown, legacyDeposits, entry, entry', booked, base, grown, stalk, minted, _,
    hterms, requireLegacy_eq_ok.mp hlegacy, hq, hv, hindex, hmow, hput, hentry, htake, hbook, hbase,
    hgrown, hstalk, hmint, rfl, rfl⟩

/-- An epoch without a position is passed over. -/
theorem migrateEpoch_stages {owner : AccountId} {asset : AssetId} {terms : LegacyTerms}
    {legacyEpoch : Epoch} {out : Outcome (Option Index)}
    (h : migrateEpoch owner asset terms legacyEpoch ledger = .ok out) :
    ledger.charter.isLegacy legacyEpoch = true ∧
      (ledger.legacyDeposits.get? ⟨owner, asset, legacyEpoch⟩ = none ∧
          out = ⟨none, ledger, ∅⟩ ∨
        ∃ position index deposits,
          ledger.legacyDeposits.get? ⟨owner, asset, legacyEpoch⟩ = some position ∧
          terms.indexOf ledger.charter legacyEpoch = .ok index ∧
          ledger.deposits.put ⟨owner, asset, index⟩ position = .ok deposits ∧
          out = ⟨some index, { ledger with
            deposits
            legacyDeposits := ledger.legacyDeposits.erase ⟨owner, asset, legacyEpoch⟩ },
            ⟨[.legacyPositionMigrated owner asset legacyEpoch index position.quantity
              position.value ledger.epoch]⟩⟩) := by
  obtain ⟨_, hlegacy, h₁⟩ := lift_bind.mp (ledger_bind.mp h)
  refine ⟨requireLegacy_eq_ok.mp hlegacy, ?_⟩
  cases hget : ledger.legacyDeposits.get? ⟨owner, asset, legacyEpoch⟩ with
  | none =>
    rw [hget] at h₁
    exact .inl ⟨rfl, pure_eq_ok.mp h₁⟩
  | some position =>
    rw [hget] at h₁
    obtain ⟨index, hindex, h₂⟩ := lift_bind.mp h₁
    obtain ⟨deposits, hput, h₃⟩ := lift_bind.mp h₂
    obtain ⟨noted, hnote, rfl⟩ := bind_pure_eq_ok.mp (update_bind.mp h₃)
    obtain rfl := emit_eq_ok.mp hnote
    exact .inr ⟨position, index, deposits, rfl, hindex, hput, rfl⟩

/-- A migration mows its owner once and then moves the epochs one after the other. -/
theorem migrate_stages {owner : AccountId} {asset : AssetId} {epochs : List Epoch}
    {out : Outcome (List Index)} (h : migrate owner asset epochs ledger = .ok out) :
    ∃ terms mown moved, ledger.legacyTerms asset = .ok terms ∧
      mow owner asset ledger = .ok mown ∧
      migrateEach owner asset terms epochs mown.ledger = .ok moved ∧
      out = ⟨moved.result, moved.ledger, mown.events ++ moved.events⟩ := by
  obtain ⟨terms, hterms, h₁⟩ := lift_bind.mp (ledger_bind.mp h)
  obtain ⟨mown, moved, hmow, hmoved, rfl⟩ := bind_apply_ok.mp h₁
  exact ⟨terms, mown, moved, hterms, hmow, hmoved, rfl⟩

/-! ### Claims -/

/-- A claim brings the flood balance up to date and pays all of it, if there is any: the balance is
zero afterwards, and what has been claimed altogether is more by as much. -/
theorem claimFlood_stages {id : AccountId} {out : Outcome Amount}
    (h : claimFlood id ledger = .ok out) : ∃ updated totalClaimed,
      updateAccount id ledger = .ok updated ∧ (updated.ledger.account id).flood.claimable ≠ 0 ∧
      updated.ledger.floodBook.totalClaimed.add (updated.ledger.account id).flood.claimable =
        .ok totalClaimed ∧
      out = ⟨(updated.ledger.account id).flood.claimable,
        { updated.ledger.withAccount id { updated.ledger.account id with
            flood := { (updated.ledger.account id).flood with claimable := 0 } } with
          floodBook := { updated.ledger.floodBook with totalClaimed } },
        ⟨[.floodPayoutClaimed id updated.ledger.charter.floodAsset
          (updated.ledger.account id).flood.claimable updated.ledger.epoch]⟩⟩ := by
  obtain ⟨updated, hupdate, h₁⟩ := (updateAccount_silent id).bind.mp h
  rw [ledger_bind] at h₁
  split at h₁
  · cases h₁
  next hne =>
    obtain ⟨totalClaimed, hadd, h₂⟩ := lift_bind.mp h₁
    obtain ⟨noted, hnote, rfl⟩ :=
      bind_pure_eq_ok.mp (setFloodBook_bind.mp (setAccount_bind.mp h₂))
    obtain rfl := emit_eq_ok.mp hnote
    exact ⟨updated, totalClaimed, hupdate, hne, hadd, rfl⟩

/-! ### The registry -/

/-- An asset is listed on terms that pass their check, if it is not listed yet and there is room
for it. -/
theorem whitelist_stages {id : AssetId} {terms : AssetTerms} {out : Outcome Unit}
    (h : whitelist id terms ledger = .ok out) :
    terms.validate = .ok () ∧ ledger.assets.get? id = none ∧ ledger.assets.size < maxAssets ∧
      out = ⟨(), ledger.withAsset id (.whitelisted terms ledger.epoch),
        ⟨[.assetWhitelisted id terms.stalkPerValue terms.accrualRate ledger.epoch]⟩⟩ := by
  obtain ⟨_, hvalid, h₁⟩ := lift_bind.mp h
  rw [ledger_bind] at h₁
  split at h₁
  · cases h₁
  next hnew =>
    split at h₁
    · cases h₁
    next hroom =>
      have hnone : ledger.assets.get? id = none := by
        simpa only [SortedMap.contains, Option.not_isSome_iff_eq_none] using hnew
      exact ⟨hvalid, hnone, Nat.not_le.mp hroom, emit_eq_ok.mp (setAsset_bind.mp h₁)⟩

/-- An asset that is taken off the list keeps its entry, closed to deposits and at rate zero. -/
theorem dewhitelist_stages {id : AssetId} {out : Outcome Unit}
    (h : dewhitelist id ledger = .ok out) : ∃ entry, ledger.asset id = .ok entry ∧
      out = ⟨(), ledger.withAsset id { entry with depositsEnabled := false, accrualRate := 0 },
        ⟨[.assetDewhitelisted id ledger.epoch]⟩⟩ := by
  obtain ⟨entry, hentry, h₁⟩ := lift_bind.mp (ledger_bind.mp h)
  exact ⟨entry, hentry, emit_eq_ok.mp (setAsset_bind.mp h₁)⟩

/-- A rate is set for a listed asset, whether or not it is open to deposits, if it is not negative.
The index stays. -/
theorem setAccrualRate_stages {id : AssetId} {rate : Index} {out : Outcome Unit}
    (h : setAccrualRate id rate ledger = .ok out) : 0 ≤ rate.toInt ∧
      ∃ entry, ledger.asset id = .ok entry ∧
        out = ⟨(), ledger.withAsset id { entry with accrualRate := rate },
          ⟨[.accrualRateChanged id entry.accrualRate rate ledger.epoch]⟩⟩ := by
  unfold setAccrualRate at h
  split at h
  · cases h
  next hrate =>
    rw [Signed.lt_iff, Signed.toInt_zero, not_lt] at hrate
    obtain ⟨entry, hentry, h₁⟩ := lift_bind.mp (ledger_bind.mp h)
    exact ⟨hrate, entry, hentry, emit_eq_ok.mp (setAsset_bind.mp h₁)⟩

/-! ### The clock -/

/-- A reward of nothing changes nothing; any other goes to the pool, and its stalk to the total. -/
theorem receiveReward_stages {quantity : Amount} {out : Outcome Unit}
    (h : receiveReward quantity ledger = .ok out) :
    quantity = 0 ∧ out = ⟨(), ledger, ∅⟩ ∨
      ∃ base pool added stalk, ledger.asset ledger.charter.baseAsset = .ok base ∧
        ledger.totals.earnedPool.add quantity = .ok pool ∧
        quantity.mul base.stalkPerValue = .ok added ∧
        ledger.totals.stalk.add added = .ok stalk ∧
        out = ⟨(), { ledger with totals := { ledger.totals with stalk, earnedPool := pool } },
          ⟨[.earnedRewardReceived quantity pool ledger.epoch]⟩⟩ := by
  unfold receiveReward at h
  split at h
  next hzero => exact .inl ⟨hzero, pure_eq_ok.mp h⟩
  next =>
    obtain ⟨base, hbase, h₁⟩ := lift_bind.mp (ledger_bind.mp h)
    obtain ⟨pool, hpool, h₂⟩ := lift_bind.mp h₁
    obtain ⟨added, hadded, h₃⟩ := lift_bind.mp h₂
    obtain ⟨stalk, hstalk, h₄⟩ := lift_bind.mp h₃
    exact .inr ⟨base, pool, added, stalk, hbase, hpool, hadded, hstalk,
      emit_eq_ok.mp (setTotals_bind.mp h₄)⟩

/-- A flood begins if one is reported and none is on, and ends if one is on and none is reported. -/
theorem turnFlood_stages {flooding : Bool} {out : Outcome Unit}
    (h : turnFlood flooding ledger = .ok out) :
    ledger.floodBook.active = none ∧
        out = ⟨(), { ledger with
          floodBook := ledger.floodBook.opened ledger.epoch ledger.totals.roots },
          ⟨[.floodStarted ledger.totals.roots ledger.epoch]⟩⟩ ∨
      (∃ start, ledger.floodBook.active = some start ∧
        out = ⟨(), { ledger with floodBook := ledger.floodBook.closed start ledger.epoch },
          ⟨[.floodEnded start ledger.epoch]⟩⟩) ∨
      out = ⟨(), ledger, ∅⟩ := by
  have hturn := ledger_bind.mp h
  cases flooding <;> cases hactive : ledger.floodBook.active <;> rw [hactive] at hturn
  · exact .inr (.inr (pure_eq_ok.mp hturn))
  next start =>
    have hend := ledger_bind.mp hturn
    rw [hactive] at hend
    exact .inr (.inl ⟨start, rfl, emit_eq_ok.mp (setFloodBook_bind.mp hend)⟩)
  · exact .inl ⟨rfl, emit_eq_ok.mp (setFloodBook_bind.mp (ledger_bind.mp hturn))⟩
  · exact .inr (.inr (pure_eq_ok.mp hturn))

/-- A payout goes to the flood that is on. There is an event of it only if some roots are locked in
that flood. -/
theorem payFlood_stages {amount : Amount} {out : Outcome Unit}
    (h : payFlood amount ledger = .ok out) : ∃ start flood book events,
      ledger.floodBook.active = some start ∧ ledger.floodBook.flood start = .ok flood ∧
      ledger.floodBook.paid start flood amount = .ok book ∧
      events = (if flood.roots = 0 then ∅ else
        ⟨[.floodPaid start amount book.payoutPerRoot ledger.epoch]⟩) ∧
      out = ⟨(), { ledger with floodBook := book }, events⟩ := by
  have hpay := ledger_bind.mp h
  cases hactive : ledger.floodBook.active with
  | none =>
    rw [hactive] at hpay
    cases hpay
  | some start =>
    rw [hactive] at hpay
    obtain ⟨flood, hflood, h₁⟩ := lift_bind.mp hpay
    obtain ⟨book, hbook, h₂⟩ := lift_bind.mp h₁
    refine ⟨start, flood, book, _, rfl, hflood, hbook, rfl, ?_⟩
    have hrecord := setFloodBook_bind.mp h₂
    split at hrecord
    next hzero => rw [pure_eq_ok.mp hrecord, if_pos hzero]
    next hne => rw [emit_eq_ok.mp hrecord, if_neg hne]

/-- A report of an epoch that has been reached changes nothing; a new one moves the clock, and then
reward, flood and payout follow. -/
theorem advanceEpoch_stages {report : EpochReport} {out : Outcome Bool}
    (h : advanceEpoch report ledger = .ok out) :
    report.epoch ≤ ledger.epoch ∧ out = ⟨false, ledger, ∅⟩ ∨
      ledger.epoch < report.epoch ∧ ∃ assets rewarded turned paid,
        ledger.assets.mapEach (Asset.grow (report.epoch.monus ledger.epoch).steps) = .ok assets ∧
        receiveReward report.earnedReward { ledger with assets, epoch := report.epoch } =
          .ok rewarded ∧
        turnFlood report.flooding rewarded.ledger = .ok turned ∧
        (payFlood report.floodPayout turned.ledger = .ok paid ∨
          report.floodPayout = 0 ∧ paid = ⟨(), turned.ledger, ∅⟩) ∧
        out = ⟨true, paid.ledger, ⟨[.epochAdvanced ledger.epoch report.epoch]⟩ ++
          (rewarded.events ++ (turned.events ++ paid.events))⟩ := by
  have hadvance := ledger_bind.mp h
  split at hadvance
  next hold => exact .inl ⟨hold, pure_eq_ok.mp hadvance⟩
  next hnew =>
    obtain ⟨assets, hassets, h₁⟩ := lift_bind.mp hadvance
    obtain ⟨_, h₂, rfl⟩ := emit_bind.mp (update_bind.mp h₁)
    obtain ⟨rewarded, _, hreward, h₃, rfl⟩ := bind_apply_ok.mp h₂
    obtain ⟨turned, _, hturn, h₄, rfl⟩ := bind_apply_ok.mp h₃
    refine .inr ⟨Nat.not_le.mp hnew, assets, rewarded, turned, ?_⟩
    split at h₄
    next =>
      obtain ⟨paid, hpay, rfl⟩ := bind_pure_eq_ok.mp h₄
      exact ⟨paid, hassets, hreward, hturn, .inl hpay, rfl⟩
    next hpayout =>
      rw [Unsigned.lt_iff, Unsigned.toNat_zero, Nat.not_lt, Nat.le_zero] at hpayout
      obtain rfl := pure_eq_ok.mp h₄
      exact ⟨_, hassets, hreward, hturn, .inr ⟨Unsigned.ext hpayout, rfl⟩, rfl⟩

/-- A report moves the clock and the indices, and changes nothing else but totals and floods. -/
theorem advanceEpoch_frame {report : EpochReport} {out : Outcome Bool}
    (h : advanceEpoch report ledger = .ok out) :
    out.ledger = ledger ∨ ∃ elapsed assets totals floodBook, 0 ≤ elapsed.toInt ∧
      ledger.assets.mapEach (Asset.grow elapsed) = .ok assets ∧
      out.ledger = { ledger with assets, epoch := report.epoch, totals, floodBook } := by
  rcases advanceEpoch_stages h with
    ⟨-, rfl⟩ | ⟨-, assets, rewarded, turned, paid, hassets, hreward, hturn, hpay, rfl⟩
  · exact .inl rfl
  have hnn : 0 ≤ (report.epoch.monus ledger.epoch).steps.toInt := Int.natCast_nonneg _
  obtain ⟨totals, hrewarded⟩ : ∃ totals, rewarded.ledger =
      { ledger with assets, epoch := report.epoch, totals } := by
    rcases receiveReward_stages hreward with ⟨-, rfl⟩ | ⟨_, _, _, _, -, -, -, -, rfl⟩
    · exact ⟨_, rfl⟩
    · exact ⟨_, rfl⟩
  obtain ⟨floodBook, hturned⟩ : ∃ floodBook, turned.ledger = { rewarded.ledger with floodBook } := by
    rcases turnFlood_stages hturn with ⟨-, rfl⟩ | ⟨_, -, rfl⟩ | rfl
    · exact ⟨_, rfl⟩
    · exact ⟨_, rfl⟩
    · exact ⟨_, rfl⟩
  obtain ⟨floodBook', hpaid⟩ : ∃ floodBook, paid.ledger = { turned.ledger with floodBook } := by
    rcases hpay with hpay | ⟨-, rfl⟩
    · obtain ⟨_, _, _, _, -, -, -, -, rfl⟩ := payFlood_stages hpay
      exact ⟨_, rfl⟩
    · exact ⟨_, rfl⟩
  exact .inr ⟨_, assets, totals, floodBook', hnn, hassets, by rw [hpaid, hturned, hrewarded]⟩

end StalkLedger.Action
