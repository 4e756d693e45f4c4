import Mathlib.Algebra.Group.Prod
import StalkLedger.Proofs.Draw
import StalkLedger.Proofs.Step
import StalkLedger.Proofs.Sum

/-!
# Weighed positions

The other books follow the positions.  To compare them, positions are weighed: a *weight* says for
each place, that is an owner, an asset and an index, what a unit of quantity and what a unit of value
counts there.  A legacy position counts at the index that its epoch stands for (`legacyIndex`), so
that one sum covers both stores (`Ledger.holdings`).

**What is put into a store or taken out of it** counts at the index it is put or taken at, whichever
store it is in (`holdings_put`, `holdings_putLegacy`, `holdings_takeAt`).  A migration changes no
weighed sum (`holdings_migrate`).
-/

namespace StalkLedger

namespace Ledger

/-! ### Terms as numbers -/

/-- The accrual index of an asset; zero if it is not listed. -/
def tip (ledger : Ledger) (asset : AssetId) : ℤ :=
  (ledger.assets.get? asset).elim 0 (·.accrualIndex.toInt)

/-- The stalk given for a unit of value; zero if the asset is not listed. -/
def stalkPerValue (ledger : Ledger) (asset : AssetId) : ℤ :=
  (ledger.assets.get? asset).elim 0 (·.stalkPerValue.toNat)

/-- The distance of the indices of consecutive legacy epochs; zero if there are none. -/
def legacyRate (ledger : Ledger) (asset : AssetId) : ℤ :=
  ((ledger.assets.get? asset).bind (·.legacy)).elim 0 (·.ratePerEpoch.toInt)

/-- The index that a legacy epoch stands for. -/
def legacyIndex (ledger : Ledger) (asset : AssetId) (epoch : Epoch) : ℤ :=
  ((epoch.toNat : ℤ) - ledger.charter.migrationEpoch.toNat) * ledger.legacyRate asset

/-- For a listed asset these are its index, its price and its legacy rate. -/
theorem tip_eq {ledger : Ledger} {asset : AssetId} {entry : Asset}
    (h : ledger.asset asset = .ok entry) : ledger.tip asset = entry.accrualIndex.toInt := by
  rw [tip, asset_eq_ok.mp h, Option.elim_some]

theorem stalkPerValue_eq {ledger : Ledger} {asset : AssetId} {entry : Asset}
    (h : ledger.asset asset = .ok entry) :
    ledger.stalkPerValue asset = entry.stalkPerValue.toNat := by
  rw [stalkPerValue, asset_eq_ok.mp h, Option.elim_some]

/-- No price is below zero. -/
theorem stalkPerValue_nonneg (ledger : Ledger) (asset : AssetId) :
    0 ≤ ledger.stalkPerValue asset := by
  unfold stalkPerValue
  cases ledger.assets.get? asset with
  | none => exact le_rfl
  | some entry => exact Int.natCast_nonneg _

theorem legacyRate_eq {ledger : Ledger} {asset : AssetId} {entry : Asset} {terms : LegacyTerms}
    (h : ledger.asset asset = .ok entry) (ht : entry.legacy = some terms) :
    ledger.legacyRate asset = terms.ratePerEpoch.toInt := by
  rw [legacyRate, asset_eq_ok.mp h, Option.bind_some, ht, Option.elim_some]

/-- Legacy terms are found where an asset is listed with some. -/
theorem legacyTerms_eq_ok {ledger : Ledger} {asset : AssetId} {terms : LegacyTerms} :
    ledger.legacyTerms asset = .ok terms ↔
      ∃ entry, ledger.asset asset = .ok entry ∧ entry.legacy = some terms := by
  simp only [legacyTerms, bind_eq_ok]
  refine exists_congr fun entry => and_congr_right fun _ => ?_
  cases entry.legacy with
  | none => exact ⟨nofun, nofun⟩
  | some t => rw [StalkLedger.pure_eq_ok, Option.some_inj]

/-- The index of the terms is the index of the ledger. -/
theorem legacyIndex_eq {ledger : Ledger} {asset : AssetId} {terms : LegacyTerms} {epoch : Epoch}
    {index : Index} (ht : ledger.legacyTerms asset = .ok terms)
    (hi : terms.indexOf ledger.charter epoch = .ok index) :
    ledger.legacyIndex asset epoch = index.toInt := by
  obtain ⟨entry, hentry, hlegacy⟩ := legacyTerms_eq_ok.mp ht
  rw [legacyIndex, legacyRate_eq hentry hlegacy]
  exact (Signed.checked_eq_ok.mp hi).symm

/-! ### Ledgers on the same terms -/

/-- The charter and the assets are the same, up to the totals held in the assets. -/
structure SameTerms (ledger ledger' : Ledger) : Prop where
  charter : ledger'.charter = ledger.charter
  assets : ∀ id, (ledger'.assets.get? id).map Asset.emptied =
    (ledger.assets.get? id).map Asset.emptied

namespace SameTerms

variable {ledger ledger' ledger'' : Ledger}

theorem refl (ledger : Ledger) : SameTerms ledger ledger := ⟨rfl, fun _ => rfl⟩

theorem trans (h : SameTerms ledger ledger') (h' : SameTerms ledger' ledger'') :
    SameTerms ledger ledger'' :=
  ⟨h'.charter.trans h.charter, fun id => (h'.assets id).trans (h.assets id)⟩

/-- The entries of an asset differ at most in the totals. -/
theorem entry (h : SameTerms ledger ledger') {id : AssetId} {entry : Asset}
    (he : ledger.assets.get? id = some entry) :
    ∃ entry', ledger'.assets.get? id = some entry' ∧ entry'.emptied = entry.emptied := by
  have ha := h.assets id
  rw [he, Option.map_some, Option.map_eq_some_iff] at ha
  exact ha

/-- Being on the same terms goes both ways. -/
theorem symm (h : SameTerms ledger ledger') : SameTerms ledger' ledger :=
  ⟨h.charter.symm, fun id => (h.assets id).symm⟩

/-- What is read off an entry without looking at the totals. -/
theorem elim_eq {α : Type} (h : SameTerms ledger ledger') (id : AssetId) (d : α)
    {f : Asset → α} (hf : ∀ entry : Asset, f entry.emptied = f entry) :
    (ledger'.assets.get? id).elim d f = (ledger.assets.get? id).elim d f := by
  have ha := h.assets id
  revert ha
  cases ledger.assets.get? id <;> cases ledger'.assets.get? id
  · exact fun _ => rfl
  · exact nofun
  · exact nofun
  · intro ha
    rw [Option.map_some, Option.map_some, Option.some_inj] at ha
    rw [Option.elim_some, Option.elim_some, ← hf, ha, hf]

/-- So the indices are the same, -/
theorem tip (h : SameTerms ledger ledger') : ledger'.tip = ledger.tip :=
  funext fun id => h.elim_eq id 0 fun _ => rfl

/-- the prices, -/
theorem stalkPerValue (h : SameTerms ledger ledger') :
    ledger'.stalkPerValue = ledger.stalkPerValue :=
  funext fun id => h.elim_eq id 0 fun _ => rfl

/-- what legacy epochs stand for, -/
theorem legacyIndex (h : SameTerms ledger ledger') : ledger'.legacyIndex = ledger.legacyIndex := by
  have hrate : ledger'.legacyRate = ledger.legacyRate := funext fun id => by
    have key := h.elim_eq id none (f := Asset.legacy) fun _ => rfl
    have elim {o : Option Asset} : o.elim none Asset.legacy = o.bind Asset.legacy := by
      cases o <;> rfl
    rw [elim, elim] at key
    rw [Ledger.legacyRate, key, Ledger.legacyRate]
  funext id epoch
  rw [Ledger.legacyIndex, h.charter, hrate, Ledger.legacyIndex]

/-- and the legacy terms. -/
theorem legacyTerms (h : SameTerms ledger ledger') {id : AssetId} {terms : LegacyTerms}
    (ht : ledger.legacyTerms id = .ok terms) : ledger'.legacyTerms id = .ok terms := by
  obtain ⟨entry, hentry, hlegacy⟩ := legacyTerms_eq_ok.mp ht
  obtain ⟨entry', hentry', hsame⟩ := h.entry (asset_eq_ok.mp hentry)
  exact legacyTerms_eq_ok.mpr ⟨entry', asset_eq_ok.mpr hentry',
    (congrArg Asset.legacy hsame).trans hlegacy⟩

/-- Entering an asset with other totals. -/
theorem of_insert {id : AssetId} {entry entry' : Asset} (hc : ledger'.charter = ledger.charter)
    (ha : ledger'.assets = ledger.assets.insert id entry') (he : ledger.asset id = .ok entry)
    (hs : entry'.emptied = entry.emptied) : SameTerms ledger ledger' := by
  refine ⟨hc, fun id' => ?_⟩
  rw [ha, SortedMap.get?_insert]
  split
  next heq => rw [heq, asset_eq_ok.mp he, Option.map_some, Option.map_some, hs]
  next => rfl

end SameTerms

end Ledger

/-! ### Weights -/

/-- What a unit of quantity and a unit of value count, by owner, asset and index. -/
abbrev Weight := AccountId → AssetId → ℤ → ℤ × ℤ

/-- What a position counts. -/
def Position.weigh (position : Position) (weight : ℤ × ℤ) : ℤ :=
  weight.1 * position.quantity.toNat + weight.2 * position.value.toNat

/-- Nothing counts nothing, -/
theorem Position.weigh_nothing (weight : ℤ × ℤ) : Position.nothing.weigh weight = 0 := by
  simp [Position.weigh, Position.nothing]

/-- and nothing is counted by a weight of zero. -/
theorem Position.weigh_zero (position : Position) : position.weigh 0 = 0 := by
  rw [weigh, Prod.fst_zero, Prod.snd_zero, zero_mul, zero_mul, add_zero]

/-- A weight may count quantity alone, -/
theorem Position.weigh_quantity (position : Position) :
    position.weigh (1, 0) = position.quantity.toNat := by
  rw [weigh, one_mul, zero_mul, add_zero]

/-- or value alone. -/
theorem Position.weigh_value (position : Position) :
    position.weigh (0, 1) = position.value.toNat := by
  rw [weigh, one_mul, zero_mul, zero_add]

/-- Positions that are put together count what they counted before. -/
theorem Position.weigh_add {p q r : Position}
    (hq : r.quantity.toNat = p.quantity.toNat + q.quantity.toNat)
    (hv : r.value.toNat = p.value.toNat + q.value.toNat) (weight : ℤ × ℤ) :
    r.weigh weight = p.weigh weight + q.weigh weight := by
  rw [weigh, weigh, weigh, hq, hv]
  push_cast
  ring

/-- A position is merged with another by adding quantities and values. -/
theorem Position.merge_eq_ok {p q r : Position} :
    p.merge q = .ok r ↔ r.quantity.toNat = p.quantity.toNat + q.quantity.toNat ∧
      r.value.toNat = p.value.toNat + q.value.toNat := by
  simp only [merge, bind_eq_ok, Unsigned.add_eq_ok, pure_eq_ok]
  exact ⟨fun ⟨_, hq, _, hv, e⟩ => e ▸ ⟨hq, hv⟩, fun ⟨hq, hv⟩ => ⟨_, hq, _, hv, rfl⟩⟩

namespace SortedMap

variable {μ : Type} [Key μ] {store store' : SortedMap (Slot μ) Position} {slot : Slot μ}

/-- A position put into a slot is put together with what is there. -/
theorem put_eq_ok {position : Position} :
    store.put slot position = .ok store' ↔ ∃ merged : Position,
      merged.quantity.toNat =
          ((store.get? slot).getD .nothing).quantity.toNat + position.quantity.toNat ∧
        merged.value.toNat = ((store.get? slot).getD .nothing).value.toNat + position.value.toNat ∧
          store.insert slot merged = store' := by
  simp only [put, bind_eq_ok, Position.merge_eq_ok, pure_eq_ok, and_assoc]

/-- A removal takes the rounded-down share of the value and leaves the rest; it takes all with the
whole quantity. -/
theorem take_eq_ok {amount value : Amount} (h : store.take slot amount = .ok (value, store')) :
    ∃ position, store.get? slot = some position ∧
      ((amount = position.quantity ∧ value = position.value ∧ store' = store.erase slot) ∨
        (amount.toNat < position.quantity.toNat ∧
          value.toNat = position.value.toNat * amount.toNat / position.quantity.toNat ∧
            ∃ rest : Position, rest.quantity.toNat + amount.toNat = position.quantity.toNat ∧
              rest.value.toNat + value.toNat = position.value.toNat ∧
                store' = store.insert slot rest)) := by
  unfold take at h
  split at h
  · cases h
  next position hslot =>
    refine ⟨position, hslot, ?_⟩
    split at h
    · cases h
    next hle =>
      rw [Unsigned.lt_iff, not_lt] at hle
      split at h
      next heq =>
        cases h
        exact .inl ⟨heq, rfl, rfl⟩
      next hne =>
        have hlt : amount.toNat < position.quantity.toNat :=
          lt_of_le_of_ne hle fun e => hne (Unsigned.ext e)
        rw [proportionalValue, if_neg hne] at h
        simp only [bind_eq_ok, mulDiv_eq_ok, Unsigned.sub_eq_ok, pure_eq_ok] at h
        obtain ⟨_, ⟨-, hv⟩, quantity, hq, rest, hr, h⟩ := h
        cases h
        exact .inr ⟨hlt, hv, ⟨quantity, rest⟩, hq, hr, rfl⟩

/-- What the positions of a store count together. -/
def weighed (store : SortedMap (Slot μ) Position) (weight : Slot μ → ℤ × ℤ) : ℤ :=
  store.sum fun slot position => position.weigh (weight slot)

/-- What is put into a store counts as much there, -/
theorem weighed_put {position : Position} (h : store.put slot position = .ok store')
    (weight : Slot μ → ℤ × ℤ) :
    store'.weighed weight = store.weighed weight + position.weigh (weight slot) := by
  obtain ⟨merged, hq, hv, rfl⟩ := put_eq_ok.mp h
  have hthere : store.measureAt (fun slot position => position.weigh (weight slot)) slot =
      ((store.get? slot).getD .nothing).weigh (weight slot) :=
    measureAt_eq_getD (Position.weigh_nothing (weight slot))
  rw [weighed, sum_insert, hthere, Position.weigh_add hq hv, weighed]
  ring

/-- and so does what is taken out. -/
theorem weighed_take {amount value : Amount} (h : store.take slot amount = .ok (value, store'))
    (weight : Slot μ → ℤ × ℤ) :
    store'.weighed weight =
      store.weighed weight - Position.weigh ⟨amount, value⟩ (weight slot) := by
  obtain ⟨position, hslot, htaken⟩ := take_eq_ok h
  rcases htaken with ⟨rfl, rfl, rfl⟩ | ⟨-, -, rest, hq, hv, rfl⟩
  · rw [weighed, sum_erase, measureAt_of_get? hslot]
    rfl
  · have hsum : position.weigh (weight slot) =
        rest.weigh (weight slot) + Position.weigh ⟨amount, value⟩ (weight slot) :=
      Position.weigh_add hq.symm hv.symm _
    rw [weighed, sum_insert, measureAt_of_get? hslot, hsum, weighed]
    ring

/-- A sum is linear in its weight. -/
theorem weighed_of_eq (store : SortedMap (Slot μ) Position) {c : ℤ} {w w₁ w₂ : Slot μ → ℤ × ℤ}
    (h : ∀ slot, w slot = c • w₁ slot - w₂ slot) :
    store.weighed w = c * store.weighed w₁ - store.weighed w₂ := by
  rw [eq_sub_iff_add_eq, weighed, weighed, weighed, ← sum_add, ← sum_mul_left]
  refine sum_congr fun slot position _ => ?_
  rw [h, Position.weigh, Position.weigh, Position.weigh, Prod.fst_sub, Prod.snd_sub, Prod.smul_fst,
    Prod.smul_snd, zsmul_eq_mul, zsmul_eq_mul, Int.cast_id]
  ring

end SortedMap

/-! ### Both stores -/

/-- An index that is looked up in the legacy store is the index of the epoch it is looked up at. -/
theorem Asset.locate_eq_legacy {entry : Asset} {charter : Charter} {index i : Index} {epoch : Epoch}
    (h : entry.locate charter index = .legacy i epoch) :
    ∃ terms, entry.legacy = some terms ∧ charter.isLegacy epoch = true ∧
      index.toInt =
        ((epoch.toNat : ℤ) - charter.migrationEpoch.toNat) * terms.ratePerEpoch.toInt := by
  unfold locate at h
  split at h
  · cases h
  next terms hterms =>
    refine ⟨terms, hterms, ?_⟩
    split at h
    · cases h
    next hdivides =>
      rw [not_or, not_not] at hdivides
      simp only at h
      split at h
      · cases h
      next hnonneg =>
        split at h
        next e he =>
          rw [Unsigned.ofNat?_eq_some_iff] at he
          split at h
          next hlegacy =>
            cases h
            refine ⟨hlegacy, ?_⟩
            rw [← he, Int.toNat_of_nonneg (not_lt.mp hnonneg), add_sub_cancel_left]
            exact (Int.tdiv_mul_cancel_of_tmod_eq_zero hdivides.2).symm
          next => cases h
        next => cases h

namespace Ledger

variable {ledger ledger' : Ledger} {slot : Slot Index} {amount value : Amount}

/-- A draw on the current store changes no other book, -/
theorem takeCurrent_eq_ok :
    ledger.takeCurrent slot amount = .ok (value, ledger') ↔ ∃ deposits,
      ledger.deposits.take slot amount = .ok (value, deposits) ∧
        ledger' = { ledger with deposits } := by
  simp only [takeCurrent, bind_eq_ok, Prod.exists, pure_eq_ok, Prod.mk.injEq]
  constructor
  · rintro ⟨_, deposits, h, rfl, rfl⟩
    exact ⟨deposits, h, rfl⟩
  · rintro ⟨deposits, h, rfl⟩
    exact ⟨_, deposits, h, rfl, rfl⟩

/-- nor does one on the legacy store; -/
theorem takeLegacy_eq_ok {slot : Slot Epoch} :
    ledger.takeLegacy slot amount = .ok (value, ledger') ↔ ∃ legacyDeposits,
      ledger.legacyDeposits.take slot amount = .ok (value, legacyDeposits) ∧
        ledger' = { ledger with legacyDeposits } := by
  simp only [takeLegacy, bind_eq_ok, Prod.exists, pure_eq_ok, Prod.mk.injEq]
  constructor
  · rintro ⟨_, legacyDeposits, h, rfl, rfl⟩
    exact ⟨legacyDeposits, h, rfl⟩
  · rintro ⟨legacyDeposits, h, rfl⟩
    exact ⟨_, legacyDeposits, h, rfl, rfl⟩

/-- a draw on both takes what the current entry holds, and the shortfall from the legacy entry. -/
theorem takeBoth_eq_ok {epoch : Epoch} {held shortfall : Amount} :
    ledger.takeBoth slot epoch held shortfall = .ok (value, ledger') ↔
      ∃ deposits legacyDeposits fromCurrent fromLegacy,
        value.toNat = fromCurrent.toNat + fromLegacy.toNat ∧
          ledger.deposits.take slot held = .ok (fromCurrent, deposits) ∧
            ledger.legacyDeposits.take ⟨slot.owner, slot.asset, epoch⟩ shortfall =
              .ok (fromLegacy, legacyDeposits) ∧
              ledger' = { ledger with deposits, legacyDeposits } := by
  simp only [takeBoth, bind_eq_ok, Prod.exists, takeCurrent_eq_ok, takeLegacy_eq_ok,
    Unsigned.add_eq_ok, pure_eq_ok, Prod.mk.injEq]
  constructor
  · rintro ⟨fromCurrent, _, ⟨deposits, hc, rfl⟩, fromLegacy, _, ⟨legacyDeposits, hlegacy, rfl⟩, _,
      hv, rfl, rfl⟩
    exact ⟨deposits, legacyDeposits, fromCurrent, fromLegacy, hv, hc, hlegacy, rfl⟩
  · rintro ⟨deposits, legacyDeposits, fromCurrent, fromLegacy, hv, hc, hlegacy, rfl⟩
    exact ⟨fromCurrent, _, ⟨deposits, hc, rfl⟩, fromLegacy, _, ⟨legacyDeposits, hlegacy, rfl⟩, _,
      hv, rfl, rfl⟩

/-- The ways in which a removal may draw on the stores. -/
inductive Taken (ledger : Ledger) (entry : Asset) (slot : Slot Index) (amount value : Amount) :
    Ledger → Prop
  /-- The current store pays all. -/
  | current {deposits} (h : ledger.deposits.take slot amount = .ok (value, deposits)) :
      Taken ledger entry slot amount value { ledger with deposits }
  /-- The legacy store pays all. -/
  | legacy {index epoch legacyDeposits}
      (hl : entry.locate ledger.charter slot.mark = .legacy index epoch)
      (h : ledger.legacyDeposits.take ⟨slot.owner, slot.asset, epoch⟩ amount =
        .ok (value, legacyDeposits)) :
      Taken ledger entry slot amount value { ledger with legacyDeposits }
  /-- The current store pays what it has, and the legacy store the shortfall. -/
  | both {index epoch deposits legacyDeposits} {held shortfall fromCurrent fromLegacy : Amount}
      (hl : entry.locate ledger.charter slot.mark = .legacy index epoch)
      (hh : held = ledger.quantityAt slot.owner slot.asset slot.mark)
      (ha : amount.toNat = held.toNat + shortfall.toNat)
      (hv : value.toNat = fromCurrent.toNat + fromLegacy.toNat)
      (hc : ledger.deposits.take slot held = .ok (fromCurrent, deposits))
      (h : ledger.legacyDeposits.take ⟨slot.owner, slot.asset, epoch⟩ shortfall =
        .ok (fromLegacy, legacyDeposits)) :
      Taken ledger entry slot amount value { ledger with deposits, legacyDeposits }

/-- A removal draws on the stores in one of these ways. -/
theorem taken_of_takeAt {entry : Asset}
    (h : ledger.takeAt entry slot amount = .ok (value, ledger')) :
    Taken ledger entry slot amount value ledger' := by
  rw [takeAt_eq] at h
  obtain ⟨draw, hdraw, hpay⟩ := bind_eq_ok.mp h
  cases draws_of_ok hdraw with
  | current hle =>
    obtain ⟨deposits, ht, rfl⟩ := takeCurrent_eq_ok.mp hpay
    exact .current ht
  | legacy hl hzero hle =>
    obtain ⟨legacyDeposits, ht, rfl⟩ := takeLegacy_eq_ok.mp hpay
    exact .legacy hl ht
  | both hl hlt hheld hg hle =>
    obtain ⟨deposits, legacyDeposits, fromCurrent, fromLegacy, hv, hc, hlegacy, rfl⟩ :=
      takeBoth_eq_ok.mp hpay
    exact .both hl rfl (shortfall_spec hlt).2 hv hc hlegacy

/-- A removal changes the stores, and nothing else. -/
theorem Taken.frame {entry : Asset} (h : Taken ledger entry slot amount value ledger') :
    ∃ deposits legacyDeposits, ledger' = { ledger with deposits, legacyDeposits } := by
  cases h with
  | current | legacy | both => exact ⟨_, _, rfl⟩

/-- What the positions of both stores count together. -/
def holdings (ledger : Ledger) (weight : Weight) : ℤ :=
  (ledger.deposits.weighed fun slot => weight slot.owner slot.asset slot.mark.toInt) +
    ledger.legacyDeposits.weighed fun slot =>
      weight slot.owner slot.asset (ledger.legacyIndex slot.asset slot.mark)

/-- Ledgers with the same stores on the same terms hold the same. -/
theorem holdings_congr (hd : ledger'.deposits = ledger.deposits)
    (hl : ledger'.legacyDeposits = ledger.legacyDeposits) (ht : SameTerms ledger ledger')
    (weight : Weight) : ledger'.holdings weight = ledger.holdings weight := by
  rw [holdings, hd, hl, ht.legacyIndex, holdings]

/-- A sum over both stores is linear in its weight. -/
theorem holdings_of_eq (ledger : Ledger) {c : ℤ} {w w₁ w₂ : Weight}
    (h : ∀ owner asset index, w owner asset index = c • w₁ owner asset index - w₂ owner asset index) :
    ledger.holdings w = c * ledger.holdings w₁ - ledger.holdings w₂ := by
  have hdeposits := ledger.deposits.weighed_of_eq fun slot =>
    h slot.owner slot.asset slot.mark.toInt
  have hlegacy := ledger.legacyDeposits.weighed_of_eq fun slot =>
    h slot.owner slot.asset (ledger.legacyIndex slot.asset slot.mark)
  rw [holdings, hdeposits, hlegacy, holdings, holdings]
  ring

/-- **A position put into the current store.** -/
theorem holdings_put {position : Position} {deposits : SortedMap (Slot Index) Position}
    (h : ledger.deposits.put slot position = .ok deposits) (weight : Weight) :
    { ledger with deposits }.holdings weight =
      ledger.holdings weight + position.weigh (weight slot.owner slot.asset slot.mark.toInt) := by
  rw [holdings, SortedMap.weighed_put h, holdings, add_right_comm]
  rfl

/-- **A position put into the legacy store** counts at the index of its epoch. -/
theorem holdings_putLegacy {slot : Slot Epoch} {position : Position}
    {legacyDeposits : SortedMap (Slot Epoch) Position}
    (h : ledger.legacyDeposits.put slot position = .ok legacyDeposits) (weight : Weight) :
    { ledger with legacyDeposits }.holdings weight = ledger.holdings weight +
      position.weigh (weight slot.owner slot.asset (ledger.legacyIndex slot.asset slot.mark)) := by
  rw [holdings, SortedMap.weighed_put h, holdings, add_assoc]
  rfl

/-- A quantity that is taken out of the current store counts at its own index, -/
theorem holdings_take {deposits : SortedMap (Slot Index) Position}
    (h : ledger.deposits.take slot amount = .ok (value, deposits)) (weight : Weight) :
    { ledger with deposits }.holdings weight = ledger.holdings weight -
      Position.weigh ⟨amount, value⟩ (weight slot.owner slot.asset slot.mark.toInt) := by
  rw [holdings, SortedMap.weighed_take h, holdings, sub_add_eq_add_sub]
  rfl

/-- and one that is taken out of the legacy store at the index that its epoch stands for. -/
theorem holdings_takeLegacy {slot : Slot Epoch} {legacyDeposits : SortedMap (Slot Epoch) Position}
    (h : ledger.legacyDeposits.take slot amount = .ok (value, legacyDeposits)) (weight : Weight) :
    { ledger with legacyDeposits }.holdings weight = ledger.holdings weight -
      Position.weigh ⟨amount, value⟩
        (weight slot.owner slot.asset (ledger.legacyIndex slot.asset slot.mark)) := by
  rw [holdings, SortedMap.weighed_take h, holdings, add_sub_assoc]
  rfl

/-- An index looked up in the legacy store is the index of the epoch there. -/
theorem legacyIndex_of_locate {entry : Asset} {asset : AssetId} {index i : Index} {epoch : Epoch}
    (he : ledger.asset asset = .ok entry)
    (h : entry.locate ledger.charter index = .legacy i epoch) :
    ledger.legacyIndex asset epoch = index.toInt := by
  obtain ⟨terms, hterms, -, hindex⟩ := Asset.locate_eq_legacy h
  rw [legacyIndex, legacyRate_eq he hterms, hindex]

/-- **A removal at an index** counts at that index, whichever stores it draws on. -/
theorem holdings_takeAt {entry : Asset} (he : ledger.asset slot.asset = .ok entry)
    (h : ledger.takeAt entry slot amount = .ok (value, ledger')) (weight : Weight) :
    ledger'.holdings weight = ledger.holdings weight -
      Position.weigh ⟨amount, value⟩ (weight slot.owner slot.asset slot.mark.toInt) := by
  cases taken_of_takeAt h with
  | current ht => exact holdings_take ht weight
  | legacy hl ht => rw [holdings_takeLegacy ht, legacyIndex_of_locate he hl]
  | @both _ epoch deposits _ held shortfall fromCurrent fromLegacy hl hh ha hv hc ht =>
    have hsum : Position.weigh ⟨amount, value⟩ (weight slot.owner slot.asset slot.mark.toInt) =
        Position.weigh ⟨held, fromCurrent⟩ (weight slot.owner slot.asset slot.mark.toInt) +
          Position.weigh ⟨shortfall, fromLegacy⟩
            (weight slot.owner slot.asset slot.mark.toInt) :=
      Position.weigh_add ha hv _
    -- The shortfall is taken from what the first removal has left.
    have hlegacy := @holdings_takeLegacy { ledger with deposits } _ _ _ _ ht weight
    rw [hlegacy, holdings_take hc, hsum,
      show ({ ledger with deposits } : Ledger).legacyIndex = ledger.legacyIndex from rfl,
      legacyIndex_of_locate he hl]
    ring

/-- **A migration** changes no weighed sum. -/
theorem holdings_migrate {owner : AccountId} {asset : AssetId} {epoch : Epoch} {index : Index}
    {position : Position} {deposits : SortedMap (Slot Index) Position}
    (hg : ledger.legacyDeposits.get? ⟨owner, asset, epoch⟩ = some position)
    (hi : ledger.legacyIndex asset epoch = index.toInt)
    (hp : ledger.deposits.put ⟨owner, asset, index⟩ position = .ok deposits) (weight : Weight) :
    { ledger with
      deposits
      legacyDeposits := ledger.legacyDeposits.erase ⟨owner, asset, epoch⟩ }.holdings weight =
      ledger.holdings weight := by
  have hlegacy : (ledger.legacyDeposits.erase ⟨owner, asset, epoch⟩).weighed (fun slot =>
      weight slot.owner slot.asset (ledger.legacyIndex slot.asset slot.mark)) =
      ledger.legacyDeposits.weighed (fun slot =>
        weight slot.owner slot.asset (ledger.legacyIndex slot.asset slot.mark)) -
        position.weigh (weight owner asset index.toInt) := by
    rw [SortedMap.weighed, SortedMap.sum_erase, SortedMap.measureAt_of_get? hg, hi]
    rfl
  have hcurrent := SortedMap.weighed_put hp fun slot =>
    weight slot.owner slot.asset slot.mark.toInt
  calc _ = _ := congrArg₂ HAdd.hAdd hcurrent hlegacy
    _ = ledger.holdings weight := by
      rw [holdings]
      ring

/-! ### Gains -/

/-- There is more at one place: of quantity, and of value. -/
def Gains (ledger ledger' : Ledger) (owner : AccountId) (asset : AssetId)
    (index quantity value : ℤ) : Prop :=
  ∀ weight : Weight, ledger'.holdings weight = ledger.holdings weight +
    ((weight owner asset index).1 * quantity + (weight owner asset index).2 * value)

/-- A position that is put in is gained at its index, -/
theorem gains_put {position : Position} {deposits : SortedMap (Slot Index) Position}
    (h : ledger.deposits.put slot position = .ok deposits) :
    Gains ledger { ledger with deposits } slot.owner slot.asset slot.mark.toInt
      position.quantity.toNat position.value.toNat :=
  holdings_put h

/-- or at the index that its epoch stands for. -/
theorem gains_putLegacy {owner : AccountId} {asset : AssetId} {epoch : Epoch} {terms : LegacyTerms}
    {index : Index} {position : Position} {legacyDeposits : SortedMap (Slot Epoch) Position}
    (ht : ledger.legacyTerms asset = .ok terms)
    (hi : terms.indexOf ledger.charter epoch = .ok index)
    (h : ledger.legacyDeposits.put ⟨owner, asset, epoch⟩ position = .ok legacyDeposits) :
    Gains ledger { ledger with legacyDeposits } owner asset index.toInt
      position.quantity.toNat position.value.toNat := by
  intro weight
  rw [holdings_putLegacy h, legacyIndex_eq ht hi]
  rfl

/-- What a removal takes is lost at the index that was asked for, whichever store it comes from. -/
theorem gains_takeAt {entry : Asset} (he : ledger.asset slot.asset = .ok entry)
    (h : ledger.takeAt entry slot amount = .ok (value, ledger')) :
    Gains ledger ledger' slot.owner slot.asset slot.mark.toInt (-amount.toNat) (-value.toNat) := by
  intro weight
  rw [holdings_takeAt he h, Position.weigh]
  ring

/-- Totals of assets do not count. -/
theorem holdings_withAsset {id : AssetId} {entry entry' : Asset} (he : ledger.asset id = .ok entry)
    (hs : entry'.emptied = entry.emptied) (weight : Weight) :
    (ledger.withAsset id entry').holdings weight = ledger.holdings weight := by
  have hterms : SameTerms ledger (ledger.withAsset id entry') := .of_insert rfl rfl he hs
  refine holdings_congr ?_ ?_ hterms weight
  · rfl
  · rfl

end Ledger

end StalkLedger
