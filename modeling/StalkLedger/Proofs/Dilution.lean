import StalkLedger.Proofs.Frame
import StalkLedger.Proofs.Location

/-!
# Minting takes no earned reward

Reward in the pool belongs to the roots that were there when it came: an account could plant what the
stalk behind its roots is more than its own.  Whoever mints stalk gets roots for it, rounded down, at
the ratio of the totals.

* **The stalk behind some roots never falls** (`share_le_share`), so the others could plant no less
  than before.
* **The new roots are worth no more than the new stalk** (`share_le_of_mint`), so who mints could plant
  no more.

A mowing mints once, a deposit and an import a second time, and apart from that balances and terms stay
(`Ledger.MintsTo`).  So **minting takes no earned reward** from anybody (`Vault.minting_spares_earned`),
and who came without roots plants nothing of it.
-/

namespace StalkLedger

open StalkLedger.Action

/-! ### Shares -/

/-- Fractions compare as their cross products do, also when rounded down. -/
theorem div_le_div_of_cross {a b c d : ℕ} (hb : 0 < b) (hd : 0 < d) (h : a * d ≤ c * b) :
    a / b ≤ c / d := by
  rw [Nat.le_div_iff_mul_le hd]
  refine Nat.le_of_mul_le_mul_right ?_ hb
  calc a / b * d * b = a / b * b * d := Nat.mul_right_comm _ _ _
    _ ≤ a * d := Nat.mul_le_mul_right d (Nat.div_mul_le_self a b)
    _ ≤ c * b := h

/-- **The stalk behind some roots does not fall** when roots are minted for no more than the ratio of
the totals. -/
theorem share_le_share {S R s m : ℕ} (r : ℕ) (hR : 0 < R) (h : S * m ≤ s * R) :
    S * r / R ≤ (S + s) * r / (R + m) := by
  refine div_le_div_of_cross hR (Nat.add_pos_left hR m) ?_
  calc S * r * (R + m) = r * (S * R + S * m) := by ring
    _ ≤ r * (S * R + s * R) := Nat.mul_le_mul_left r (Nat.add_le_add_left h _)
    _ = (S + s) * r * R := by ring

/-- **The stalk behind the roots of who mints** does not rise by more than what is minted. -/
theorem share_le_of_mint {S R s m r : ℕ} (hR : 0 < R) (hr : r ≤ R) (h : S * m ≤ s * R) :
    (S + s) * (r + m) / (R + m) ≤ S * r / R + s := by
  rw [← Nat.add_mul_div_right _ _ hR]
  refine div_le_div_of_cross (Nat.add_pos_left hR m) hR ?_
  -- The two sides differ by what the other roots gain from the rounding.
  obtain ⟨others, rfl⟩ := Nat.exists_eq_add_of_le hr
  have hgain := Nat.mul_le_mul_left others h
  calc (S + s) * (r + m) * (r + others)
      = (S * r + s * (r + others)) * (r + others + m) + others * (S * m) -
          others * (s * (r + others)) := by
        refine Nat.eq_sub_of_add_eq ?_
        ring
    _ ≤ (S * r + s * (r + others)) * (r + others + m) := by omega

/-- Roots are minted for no more than the ratio of the totals. -/
theorem rootsForMint_le {totalRoots totalStalk stalk roots : Amount} (hR : totalRoots ≠ 0)
    (h : rootsForMint totalRoots totalStalk stalk = .ok roots) :
    totalStalk.toNat * roots.toNat ≤ stalk.toNat * totalRoots.toNat := by
  unfold rootsForMint at h
  split at h
  next hzero =>
    obtain rfl := hzero.resolve_left hR
    rw [Unsigned.toNat_zero, Nat.zero_mul]
    exact Nat.zero_le _
  next =>
    obtain ⟨-, hroots⟩ := mulDiv_eq_ok.mp h
    rw [hroots, Nat.mul_comm stalk.toNat]
    exact Nat.mul_div_le _ _

/-! ### What an account could plant -/

namespace Ledger

variable {ledger ledger' ledger'' : Ledger} {id : AccountId}

/-- What an account could plant, as a number: the stalk behind its roots beyond its own, in units of
the base asset, as far as the pool goes. -/
def earned (ledger : Ledger) (id : AccountId) : ℕ :=
  min ((ledger.totals.stalk.toNat * (ledger.account id).roots.toNat / ledger.totals.roots.toNat -
      (ledger.account id).stalk.toNat) /
    (ledger.stalkPerValue ledger.charter.baseAsset).toNat) ledger.totals.earnedPool.toNat

/-- It can always be told, if the base asset is listed and the totals count the roots. -/
theorem earnedBalance_eq {base : Asset} (hbase : ledger.asset ledger.charter.baseAsset = .ok base)
    (hroots : (ledger.account id).roots ≤ ledger.totals.roots) :
    ∃ quantity, ledger.earnedBalance id = .ok quantity ∧ quantity.toNat = ledger.earned id := by
  unfold earnedBalance earned
  dsimp only
  split
  next hzero =>
    refine ⟨0, rfl, ?_⟩
    have hshare : ledger.totals.stalk.toNat * (ledger.account id).roots.toNat /
        ledger.totals.roots.toNat = 0 := by
      rcases hzero with hzero | hzero
      · rw [hzero, Unsigned.toNat_zero, Nat.mul_zero, Nat.zero_div]
      · rw [hzero, Unsigned.toNat_zero, Nat.div_zero]
    rw [hshare, Nat.zero_sub, Nat.zero_div, Nat.zero_min]
    rfl
  next hne =>
    have htotal : ledger.totals.roots.toNat ≠ 0 := fun h => hne (.inr (Unsigned.ext h))
    have hshare : ledger.totals.stalk.toNat * (ledger.account id).roots.toNat /
        ledger.totals.roots.toNat ≤ ledger.totals.stalk.toNat :=
      Nat.div_le_of_le_mul <| by
        rw [Nat.mul_comm]
        exact Nat.mul_le_mul_right _ hroots
    let share : Amount := ⟨_, hshare.trans_lt ledger.totals.stalk.toNat_lt⟩
    have hmul : mulDiv ledger.totals.stalk (ledger.account id).roots ledger.totals.roots =
        .ok share := mulDiv_eq_ok.mpr ⟨htotal, rfl⟩
    rw [hmul]
    refine ⟨_, bind_eq_ok.mpr ⟨share, rfl, bind_eq_ok.mpr ⟨base, hbase, rfl⟩⟩, ?_⟩
    rw [stalkPerValue_eq hbase, Unsigned.toNat_min, Unsigned.toNat_quotient, Int.toNat_natCast]
    rfl

theorem earned_of_earnedBalance {base : Asset} {quantity : Amount}
    (hbase : ledger.asset ledger.charter.baseAsset = .ok base)
    (hroots : (ledger.account id).roots ≤ ledger.totals.roots)
    (h : ledger.earnedBalance id = .ok quantity) : quantity.toNat = ledger.earned id := by
  obtain ⟨quantity', hquantity', hearned⟩ := earnedBalance_eq hbase hroots
  obtain rfl := Except.ok.inj (h.symm.trans hquantity')
  exact hearned

/-- Only balances and terms matter. -/
theorem earned_congr (hb : SameBalances ledger ledger') (ht : SameTerms ledger ledger')
    (id : AccountId) : ledger'.earned id = ledger.earned id := by
  rw [earned, hb.totals, hb.stalk, hb.roots, ht.charter, ht.stalkPerValue, earned]

/-- An account has taken no earned reward from anybody. -/
structure Fair (id : AccountId) (ledger ledger' : Ledger) : Prop
    extends SameTerms ledger ledger' where
  others : ∀ other, other ≠ id → ledger.earned other ≤ ledger'.earned other
  own : ledger'.earned id ≤ ledger.earned id
  /-- No roots have been lost. -/
  roots : ledger.totals.roots ≤ ledger'.totals.roots

namespace Fair

theorem of_same (hb : SameBalances ledger ledger') (ht : SameTerms ledger ledger') :
    Fair id ledger ledger' where
  toSameTerms := ht
  others other _ := (earned_congr hb ht other).ge
  own := (earned_congr hb ht id).le
  roots := by
    rw [hb.totals]
    exact Nat.le_refl _

theorem trans (h : Fair id ledger ledger') (h' : Fair id ledger' ledger'') :
    Fair id ledger ledger'' where
  toSameTerms := h.toSameTerms.trans h'.toSameTerms
  others other hne := (h.others other hne).trans (h'.others other hne)
  own := h'.own.trans h.own
  roots := Nat.le_trans h.roots h'.roots

end Fair

end Ledger

open Ledger (Fair SameBalances SameTerms)

variable {ledger ledger' : Ledger} {id : AccountId}

/-- **Minting is fair**, if there are roots. -/
theorem mintStalk_fair {stalk : Amount} {out : Outcome Amount} (hR : ledger.totals.roots ≠ 0)
    (hroots : (ledger.account id).roots ≤ ledger.totals.roots)
    (h : mintStalk id stalk ledger = .ok out) : Fair id ledger out.ledger := by
  by_cases hzero : stalk = 0
  · subst hzero
    cases h
    exact .of_same ⟨fun _ => rfl, fun _ => rfl, rfl⟩ (.refl ledger)
  obtain ⟨minted, totals, credited, hminted, htotals, hcredit, rfl⟩ := (mintStalk_eq_ok hzero).mp h
  obtain ⟨stalk', roots', _, hstalk', hroots', rfl⟩ := creditStalk_spec hcredit
  obtain ⟨hstalk, hsum, hpool⟩ := Totals.credit_eq_ok.mp htotals
  have hpos : 0 < ledger.totals.roots.toNat := Nat.pos_of_ne_zero fun h₀ => hR (Unsigned.ext h₀)
  have hratio := rootsForMint_le hR hminted
  refine ⟨⟨rfl, fun _ => rfl⟩, fun other hne => ?_, ?_, Unsigned.le_iff.mpr (hsum ▸ Nat.le_add_right _ _)⟩
  · rw [Ledger.earned, Ledger.earned, Ledger.account_withAccount, if_neg hne]
    show _ ≤ min ((totals.stalk.toNat * (ledger.account other).roots.toNat / totals.roots.toNat -
      (ledger.account other).stalk.toNat) / _) totals.earnedPool.toNat
    rw [hstalk, hsum, hpool]
    exact min_le_min_right _ (Nat.div_le_div_right
      (Nat.sub_le_sub_right (share_le_share _ hpos hratio) _))
  · rw [Ledger.earned, Ledger.earned, Ledger.account_withAccount, if_pos rfl]
    show min ((totals.stalk.toNat * roots'.toNat / totals.roots.toNat - stalk'.toNat) / _)
      totals.earnedPool.toNat ≤ _
    have hstalk'' : stalk'.toNat = (ledger.account id).stalk.toNat + stalk.toNat := hstalk'
    have hroots'' : roots'.toNat = (ledger.account id).roots.toNat + minted.toNat := hroots'
    rw [hstalk, hsum, hpool, hstalk'', hroots'']
    have hshare := share_le_of_mint hpos hroots hratio
    exact min_le_min_right _ (Nat.div_le_div_right (by omega))

/-! ### What mints -/

/-- Stalk has been minted for an account; apart from that no balances and no terms have changed. -/
def Ledger.MintsTo (id : AccountId) (ledger ledger' : Ledger) : Prop :=
  ∃ start stalk out, SameBalances ledger start ∧ SameTerms ledger start ∧
    mintStalk id stalk start = .ok out ∧ ledger' = out.ledger

/-- No account has more roots than the totals count. -/
theorem Ledger.Orderly.roots_le (h : ledger.Orderly) (id : AccountId) :
    (ledger.account id).roots ≤ ledger.totals.roots :=
  (h.totalled.covers (Nat.le_refl (ledger.account id).stalk.toNat)).totalRoots

theorem Ledger.MintsTo.fair (h : MintsTo id ledger ledger') (ho : ledger.Orderly)
    (hR : ledger.totals.roots ≠ 0) : Fair id ledger ledger' := by
  obtain ⟨start, stalk, out, hb, ht, hmint, rfl⟩ := h
  have hroots := ho.roots_le id
  rw [← hb.totals] at hR hroots
  rw [← hb.roots] at hroots
  exact (Fair.of_same hb ht).trans (mintStalk_fair hR hroots hmint)

theorem Ledger.Fair.roots_ne_zero (h : Fair id ledger ledger') (hR : ledger.totals.roots ≠ 0) :
    ledger'.totals.roots ≠ 0 := fun hzero => by
  have hle := h.roots
  rw [hzero] at hle
  exact hR (Unsigned.ext (Nat.le_zero.mp hle))

open Ledger (MintsTo)

variable {asset : AssetId}

/-- Updating an account leaves balances and terms. -/
theorem updateAccount_same {out : Outcome Unit} (h : updateAccount id ledger = .ok out) :
    SameBalances ledger out.ledger ∧ SameTerms ledger out.ledger := by
  rcases updateAccount_eq_ok.mp h with ⟨-, rfl⟩ | ⟨-, flood, -, rfl⟩
  · exact ⟨.withAccount rfl rfl, rfl, fun _ => rfl⟩
  · exact ⟨.withAccount rfl rfl, rfl, fun _ => rfl⟩

/-- So does entering a position, -/
theorem addPositionAt_same {slot : Slot Index} {position : Position} {out : Outcome Unit}
    (h : addPositionAt slot position ledger = .ok out) :
    SameBalances ledger out.ledger ∧ SameTerms ledger out.ledger := by
  have hterms := (Ledger.Keeps.addPositionAt h).toSameTerms
  obtain ⟨_, _, _, -, -, -, -, -, -, rfl⟩ := addPositionAt_eq_ok.mp h
  exact ⟨.of_accounts rfl rfl, hterms⟩

/-- and booking its value. -/
theorem creditValue_same {value : Amount} {out : Outcome Unit}
    (h : creditValue id asset value ledger = .ok out) :
    SameBalances ledger out.ledger ∧ SameTerms ledger out.ledger := by
  have hbalances := SameBalances.creditValue h
  obtain ⟨_, -, rfl⟩ := creditValue_eq_ok.mp h
  exact ⟨hbalances, rfl, fun _ => rfl⟩

/-- **Mowing** mints what was grown. -/
theorem mow_mints {out : Outcome Amount} (h : mow id asset ledger = .ok out) :
    MintsTo id ledger out.ledger := by
  obtain ⟨updated, hupdate, hgrowth⟩ := mow_stages h
  obtain ⟨entry, grown, minted, -, -, hmint, rfl⟩ := creditGrowth_spec hgrowth
  obtain ⟨hb, ht⟩ := updateAccount_same hupdate
  exact ⟨_, grown, minted, hb.trans (.withCheckpoint ..), ht.trans ⟨rfl, fun _ => rfl⟩, hmint, rfl⟩

/-- **A deposit** mows, and mints the stalk of its value. -/
theorem deposit_mints {quantity value : Amount} {out : Outcome DepositReceipt}
    (h : deposit id asset quantity value ledger = .ok out) :
    ∃ mown, mow id asset ledger = .ok mown ∧ MintsTo id mown.ledger out.ledger := by
  obtain ⟨mown, tip, added, booked, entry, stalk, minted, -, hmow, -, hadd, hbook, -, -, hmint,
    rfl⟩ := deposit_stages h
  obtain ⟨hb, ht⟩ := addPositionAt_same hadd
  obtain ⟨hb', ht'⟩ := creditValue_same hbook
  exact ⟨mown, hmow, booked.ledger, stalk, minted, hb.trans hb', ht.trans ht', hmint, rfl⟩

/-- So does **an import**, with what the position has grown. -/
theorem importLegacy_mints {epoch : Epoch} {quantity value : Amount} {out : Outcome Index}
    (h : importLegacy id asset epoch quantity value ledger = .ok out) :
    ∃ mown, mow id asset ledger = .ok mown ∧ MintsTo id mown.ledger out.ledger := by
  obtain ⟨terms, index, mown, legacyDeposits, entry, entry', booked, base, grown, stalk, minted, _,
    -, -, -, -, -, hmow, -, hentry, htake, hbook, -, -, -, hmint, -, rfl⟩ := importLegacy_stages h
  have hb : SameBalances mown.ledger
      ({ mown.ledger with legacyDeposits }.withAsset asset entry') := .of_accounts rfl rfl
  have ht : SameTerms mown.ledger
      ({ mown.ledger with legacyDeposits }.withAsset asset entry') :=
    .of_insert rfl rfl hentry (Asset.emptied_of_take htake)
  obtain ⟨hb', ht'⟩ := creditValue_same hbook
  exact ⟨mown, hmow, booked.ledger, stalk, minted, hb.trans hb', ht.trans ht', hmint, rfl⟩

/-- What mows, and mints after that, is fair. -/
theorem Ledger.Fair.of_mow {mown : Outcome Amount} (hmow : mow id asset ledger = .ok mown)
    (h : MintsTo id mown.ledger ledger') (ho : ledger.Orderly) (hR : ledger.totals.roots ≠ 0) :
    Fair id ledger ledger' := by
  have hfair := (mow_mints hmow).fair ho hR
  exact hfair.trans (h.fair (ho.of_mow hmow) (hfair.roots_ne_zero hR))

/-- An account without roots could plant nothing. -/
theorem Ledger.earned_of_rootless (h : (ledger.account id).roots = 0) : ledger.earned id = 0 := by
  rw [earned, h, Unsigned.toNat_zero, Nat.mul_zero, Nat.zero_div, Nat.zero_sub, Nat.zero_div,
    Nat.zero_min]

/-- Nor can an account that could plant nothing before it is mown. -/
theorem plant_nothing {out : Outcome PlantReceipt} {base : Asset} (ho : ledger.Orderly)
    (hR : ledger.totals.roots ≠ 0) (hbase : ledger.asset ledger.charter.baseAsset = .ok base)
    (hnothing : ledger.earned id = 0) (h : plant id ledger = .ok out) : out.result.quantity = 0 := by
  obtain ⟨mown, quantity, entry, hmow, hquantity, -, hplant⟩ := plant_stages h
  have hmown := ho.of_mow hmow
  have hfair := (mow_mints hmow).fair ho hR
  obtain ⟨base', hbase', -⟩ := hfair.toSameTerms.entry (Ledger.asset_eq_ok.mp hbase)
  rw [← hfair.charter] at hbase'
  have hearned := Ledger.earned_of_earnedBalance (Ledger.asset_eq_ok.mpr hbase')
    (hmown.roots_le id) hquantity
  have hown := hfair.own
  obtain rfl : quantity = 0 := Unsigned.ext (by rw [Unsigned.toNat_zero]; omega)
  rcases hplant with ⟨-, rfl⟩ | ⟨_, _, _, _, _, _, _, -, -, -, -, -, -, -, rfl⟩
  · rfl
  · rfl

namespace Call

/-- The account for which a call mints, if that is all it does with stalk. -/
def minter : Call → Option AccountId
  | .mow account _ => some account
  | .deposit owner _ _ | .importLegacy owner _ _ _ _ => some owner
  | _ => none

end Call

namespace Vault

variable {vault : Vault} {answer : Answer} {call : Call}

/-- An import that is answered has taken place. -/
theorem importLegacy_of_answer {epoch : Epoch} {quantity value : Amount}
    (hentered : vault.entered = false)
    (h : (serve (.importLegacy id asset epoch quantity value) vault).1.result = .ok answer) :
    ∃ out, Action.importLegacy id asset epoch quantity value vault.ledger = .ok out ∧
      (serve (.importLegacy id asset epoch quantity value) vault).2.ledger = out.ledger := by
  rw [serve] at h ⊢
  obtain ⟨out, hrun, hledger, -⟩ := (transact_changed hentered).answered h
  exact ⟨out, hrun, hledger⟩

/-- **Calls that mint are fair.** -/
theorem serve_fair (hentered : vault.entered = false) (ho : vault.ledger.Orderly)
    (hR : vault.ledger.totals.roots ≠ 0) (hid : call.minter = some id)
    (h : (serve call vault).1.result = .ok answer) :
    Fair id vault.ledger (serve call vault).2.ledger := by
  cases call with
  | mow =>
    obtain rfl := Option.some.inj hid
    obtain ⟨mown, hmow, hledger⟩ := mow_of_answer hentered h
    rw [hledger]
    exact (mow_mints hmow).fair ho hR
  | deposit =>
    obtain rfl := Option.some.inj hid
    obtain ⟨value, out, hdeposit, hledger, -⟩ := deposit_of_answer hentered h
    obtain ⟨mown, hmow, hmints⟩ := deposit_mints hdeposit
    rw [hledger]
    exact .of_mow hmow hmints ho hR
  | importLegacy =>
    obtain rfl := Option.some.inj hid
    obtain ⟨out, himport, hledger⟩ := importLegacy_of_answer hentered h
    obtain ⟨mown, hmow, hmints⟩ := importLegacy_mints himport
    rw [hledger]
    exact .of_mow hmow hmints ho hR
  | _ => cases hid

/-- **Minting takes no earned reward.**  After any requests to a new vault, with the base asset listed
and some roots about, take a mowing, a deposit or an import that is answered.  What any other account
could plant is then no less than before, and what the account itself could plant is no more.  If it
had no roots, it could plant nothing, and a planting that follows plants nothing. -/
theorem minting_spares_earned {charter : Charter} {start : Vault} (h : genesis charter = .ok start)
    (requests : List Request) {call : Call} {id : AccountId} {base : Asset} {answer : Answer}
    (hid : call.minter = some id)
    (hbase : (run requests start).2.ledger.asset (run requests start).2.ledger.charter.baseAsset =
      .ok base)
    (hR : (run requests start).2.ledger.totals.roots ≠ 0)
    (hanswer : (serve call (run requests start).2).1.result = .ok answer) :
    let before := (run requests start).2.ledger
    let after := (serve call (run requests start).2).2
    (∀ account, ∃ earned earned', before.earnedBalance account = .ok earned ∧
      after.ledger.earnedBalance account = .ok earned' ∧
        (account ≠ id → earned ≤ earned') ∧ (account = id → earned' ≤ earned)) ∧
    ((before.account id).roots = 0 → after.ledger.earnedBalance id = .ok 0 ∧
      ∀ receipt, (serve (.plant id) after).1.result = .ok (.planted receipt) →
        receipt.quantity = 0) := by
  intro before after
  obtain ⟨ho, hentered⟩ := orderly h requests
  have hfair : Fair id before after.ledger := serve_fair hentered ho hR hid hanswer
  obtain ⟨htransition, hentered'⟩ := handle_transition hentered (.call call)
  have ho' : after.ledger.Orderly := htransition.orderly ho
  obtain ⟨base', hbase', -⟩ := hfair.toSameTerms.entry (Ledger.asset_eq_ok.mp hbase)
  rw [← hfair.charter, ← Ledger.asset_eq_ok] at hbase'
  refine ⟨fun account => ?_, fun hrootless => ?_⟩
  · obtain ⟨earned, hearned, heq⟩ := Ledger.earnedBalance_eq hbase (ho.roots_le account)
    obtain ⟨earned', hearned', heq'⟩ := Ledger.earnedBalance_eq hbase' (ho'.roots_le account)
    refine ⟨earned, earned', hearned, hearned', fun hne => ?_, ?_⟩
    · rw [Unsigned.le_iff, heq, heq']
      exact hfair.others account hne
    · rintro rfl
      rw [Unsigned.le_iff, heq, heq']
      exact hfair.own
  · have hnothing : after.ledger.earned id = 0 :=
      Nat.le_zero.mp (hfair.own.trans (Ledger.earned_of_rootless hrootless).le)
    obtain ⟨earned', hearned', heq'⟩ := Ledger.earnedBalance_eq hbase' (ho'.roots_le id)
    obtain rfl : earned' = 0 := Unsigned.ext (heq'.trans hnothing)
    refine ⟨hearned', fun receipt hplanted => ?_⟩
    obtain ⟨out, hplant, -, hreceipt⟩ := plant_of_answer hentered' hplanted
    obtain rfl := Answer.planted.inj hreceipt
    exact plant_nothing ho' (hfair.roots_ne_zero hR) hbase' hnothing hplant

/-- Accounts 7 and 8 have roots, and share in a reward that joins the pool. -/
def poolRequests : List Request :=
  sampleRequests ++ [.whitelist 0 ⟨10000, 2, none⟩ .unit, .call (.receiveReward 60)]

/-- Account 9 comes without roots, deposits, and plants nothing. -/
theorem minting_spares_earned_pool : genesis ⟨10, 10, 0, 9⟩ = .ok sample ∧
    (Call.deposit 9 1 40).minter = some 9 ∧
    (run poolRequests sample).2.ledger.asset (run poolRequests sample).2.ledger.charter.baseAsset =
      .ok ⟨10000, 2, 0, none, 0, 0, true, 13⟩ ∧
    (run poolRequests sample).2.ledger.totals.roots ≠ 0 ∧
    ∃ answer, (serve (.deposit 9 1 40) (run poolRequests sample).2).1.result = .ok answer ∧
      (∀ account, ∃ earned earned',
        (run poolRequests sample).2.ledger.earnedBalance account = .ok earned ∧
        (serve (.deposit 9 1 40) (run poolRequests sample).2).2.ledger.earnedBalance account =
          .ok earned' ∧ (account ≠ 9 → earned ≤ earned') ∧ (account = 9 → earned' ≤ earned)) ∧
      (serve (.deposit 9 1 40) (run poolRequests sample).2).2.ledger.earnedBalance 9 = .ok 0 ∧
      ∀ receipt, (serve (.plant 9)
        (serve (.deposit 9 1 40) (run poolRequests sample).2).2).1.result = .ok (.planted receipt) →
          receipt.quantity = 0 := by
  have hbase : (run poolRequests sample).2.ledger.asset
      (run poolRequests sample).2.ledger.charter.baseAsset =
        .ok ⟨10000, 2, 0, none, 0, 0, true, 13⟩ := by decide +kernel
  have hR : (run poolRequests sample).2.ledger.totals.roots ≠ 0 := by decide +kernel
  have hrootless : ((run poolRequests sample).2.ledger.account 9).roots = 0 := by decide +kernel
  have hok : (serve (.deposit 9 1 40) (run poolRequests sample).2).1.result.toOption.isSome =
      true := by decide +kernel
  obtain ⟨answer, hanswer⟩ := exists_ok hok
  obtain ⟨hshares, hnothing⟩ :=
    minting_spares_earned genesis_sample poolRequests rfl hbase hR hanswer
  exact ⟨genesis_sample, rfl, hbase, hR, answer, hanswer, hshares, hnothing hrootless⟩

end Vault

end StalkLedger
