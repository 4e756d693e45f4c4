import Mathlib.Algebra.Order.Monoid.Prod
import StalkLedger.Proofs.Dispatch
import StalkLedger.Proofs.Frame

/-!
# Parcels

A transfer takes positions out of the stores of one account and enters them for another.  On the way
they are *parcels*: an index, a quantity and a value each.  What a slot holds is measured by quantity
and value (`Position.contents`), and what an account holds at an index is measured over both stores
(`Ledger.heldAt`).

* **Parcels leave** (`removeMultiple_sends`): at every index the sender has less by what the parcels
  from that index hold; the current store pays first, and no legacy position grows.  Taken without
  its running sums, a removal at several indices is one parcel leaving after the other (`Departs`,
  `removeEach_eq_ok`).
* **Parcels arrive** (`receiveEach_receives`): at every index the current store of the recipient has
  more by what the parcels from that index hold.

Either way nothing else moves but the totals held in the asset, by what all parcels hold
(`Ledger.Rebooks`).  Both are told of a single step first, and then by induction of all of them.
-/

namespace StalkLedger

open StalkLedger.Action Ledger

/-! ### What a slot holds -/

namespace Position

/-- Quantity and value of what is in a slot; nothing of no value if it is empty. -/
def contents (entry : Option Position) : ℤ × ℤ :=
  ((entry.getD .nothing).quantity.toNat, (entry.getD .nothing).value.toNat)

theorem contents_some (position : Position) : contents (some position) =
    ((position.quantity.toNat : ℤ), (position.value.toNat : ℤ)) := rfl

theorem contents_nonneg (entry : Option Position) : 0 ≤ contents entry :=
  ⟨Int.natCast_nonneg _, Int.natCast_nonneg _⟩

/-- An entry holds less by what it loses. -/
theorem Loses.contents {entry entry' : Option Position} {quantity value : ℕ}
    (h : Loses entry entry' quantity value) :
    contents entry' = contents entry - ((quantity : ℤ), (value : ℤ)) := by
  cases h with
  | nothing => exact (sub_zero _).symm
  | all position => exact (sub_self _).symm
  | part _ _ hquantity hvalue _ =>
    rw [contents_some, contents_some, Prod.mk_sub_mk, ← hquantity, ← hvalue, Nat.cast_add,
      Nat.cast_add, add_sub_cancel_right, add_sub_cancel_right]

/-- A position is known by what it holds. -/
theorem contents_some_inj {position position' : Position}
    (h : contents (some position') = contents (some position)) : position' = position := by
  obtain ⟨quantity, value⟩ := position
  obtain ⟨quantity', value'⟩ := position'
  obtain rfl : quantity' = quantity := Unsigned.ext (Int.ofNat.inj (congrArg Prod.fst h))
  obtain rfl : value' = value := Unsigned.ext (Int.ofNat.inj (congrArg Prod.snd h))
  rfl

/-- A slot that holds some quantity, if it holds anything, is told by what it holds. -/
theorem eq_of_contents {entry entry' : Option Position} (h : contents entry' = contents entry)
    (hne : ∀ position, entry = some position → position.quantity ≠ 0)
    (hne' : ∀ position, entry' = some position → position.quantity ≠ 0) : entry' = entry := by
  have hquantity := Int.ofNat.inj (congrArg Prod.fst h)
  cases entry with
  | none =>
    cases entry' with
    | none => rfl
    | some position' => exact absurd (Unsigned.ext hquantity) (hne' _ rfl)
  | some position =>
    cases entry' with
    | none => exact absurd (Unsigned.ext hquantity.symm) (hne _ rfl)
    | some position' => exact congrArg some (contents_some_inj h)

end Position

open Position (contents)

/-- A slot holds more by what is put into it. -/
theorem SortedMap.contents_of_put {μ : Type} [Key μ] {store store' : SortedMap (Slot μ) Position}
    {slot : Slot μ} {position : Position} (h : store.put slot position = .ok store') :
    contents (store'.get? slot) = contents (store.get? slot) + contents (some position) := by
  obtain ⟨merged, hquantity, hvalue, rfl⟩ := put_eq_ok.mp h
  rw [get?_insert_self, Position.contents_some, hquantity, hvalue, Nat.cast_add, Nat.cast_add]
  rfl

/-- An entry of the registry is told by its terms and its totals. -/
theorem Asset.eq_of_held {entry entry' : Asset} (h : entry'.emptied = entry.emptied)
    (hheld : entry'.held = entry.held) : entry' = entry :=
  calc entry' = { entry'.emptied with
        totalQuantity := entry'.held.quantity, totalValue := entry'.held.value } := rfl
    _ = { entry.emptied with
        totalQuantity := entry.held.quantity, totalValue := entry.held.value } := by
      rw [h, hheld]
    _ = entry := rfl

/-! ### What is on the way -/

/-- A position on its way: the index it has, its quantity and its value. -/
abbrev Parcel := Index × Amount × Amount

namespace Parcel

/-- Quantity and value of a parcel. -/
def contents (parcel : Parcel) : ℤ × ℤ := (parcel.2.1.toNat, parcel.2.2.toNat)

theorem contents_nonneg (parcel : Parcel) : 0 ≤ parcel.contents :=
  ⟨Int.natCast_nonneg _, Int.natCast_nonneg _⟩

/-- What some parcels hold together. -/
def total (parcels : List Parcel) : ℤ × ℤ := (parcels.map contents).sum

/-- What the parcels of an index hold together. -/
def totalAt (index : Index) (parcels : List Parcel) : ℤ × ℤ :=
  total (parcels.filter fun parcel => parcel.1 = index)

@[simp] theorem total_nil : total [] = 0 := rfl

@[simp] theorem totalAt_nil (index : Index) : totalAt index [] = 0 := rfl

@[simp] theorem total_cons (parcel : Parcel) (parcels : List Parcel) :
    total (parcel :: parcels) = parcel.contents + total parcels := by
  rw [total, List.map_cons, List.sum_cons, total]

/-- A parcel counts at its own index. -/
theorem totalAt_cons (index : Index) (parcel : Parcel) (parcels : List Parcel) :
    totalAt index (parcel :: parcels) =
      (if parcel.1 = index then parcel.contents else 0) + totalAt index parcels := by
  unfold totalAt
  by_cases h : parcel.1 = index
  · rw [List.filter_cons_of_pos (by simpa using h), total_cons, if_pos h]
  · rw [List.filter_cons_of_neg (by simpa using h), if_neg h, zero_add]

/-- No parcels are less than nothing, neither altogether -/
theorem total_nonneg (parcels : List Parcel) : 0 ≤ total parcels := by
  induction parcels with
  | nil => exact le_rfl
  | cons parcel parcels ih =>
    rw [total_cons]
    exact add_nonneg parcel.contents_nonneg ih

/-- nor at any index. -/
theorem totalAt_nonneg (index : Index) (parcels : List Parcel) : 0 ≤ totalAt index parcels :=
  total_nonneg _

end Parcel

namespace Ledger

variable {ledger ledger' ledger'' : Ledger} {slot : Slot Index} {owner : AccountId}
  {owners owners' : List AccountId} {asset : AssetId} {change change' parcel parcel' : ℤ × ℤ}

/-! ### What an account holds at an index -/

/-- The legacy epoch under which an index of an asset is looked up, if there is one. -/
def epochAt (ledger : Ledger) (asset : AssetId) (index : Index) : Option Epoch :=
  (ledger.assets.get? asset).bind fun entry => (entry.locate ledger.charter index).epoch?

/-- The legacy position at an index. -/
def legacyAt (ledger : Ledger) (slot : Slot Index) : Option Position :=
  (ledger.epochAt slot.asset slot.mark).bind (ledger.legacyPosition slot.owner slot.asset)

/-- Quantity and value that an account holds at an index, in both stores. -/
def heldAt (ledger : Ledger) (slot : Slot Index) : ℤ × ℤ :=
  contents (ledger.deposits.get? slot) + contents (ledger.legacyAt slot)

/-- The legacy epoch at an index is the one that the index is located at. -/
theorem epochAt_eq {entry : Asset} {index : Index} (h : ledger.asset asset = .ok entry) :
    ledger.epochAt asset index = (entry.locate ledger.charter index).epoch? := by
  rw [epochAt, asset_eq_ok.mp h, Option.bind_some]

/-- Different indices are not looked up under one epoch. -/
theorem epochAt_inj {index index' : Index} {epoch : Epoch}
    (h : ledger.epochAt asset index = some epoch) (h' : ledger.epochAt asset index' = some epoch) :
    index = index' := by
  obtain ⟨entry, hentry, hlocate⟩ := Option.bind_eq_some_iff.mp h
  rw [epochAt_eq (asset_eq_ok.mpr hentry)] at h'
  -- Either index is the one that the epoch stands for.
  have stands {i : Index} (hi : (entry.locate ledger.charter i).epoch? = some epoch) :
      ∃ terms, entry.legacy = some terms ∧ i.toInt =
        ((epoch.toNat : ℤ) - ledger.charter.migrationEpoch.toNat) * terms.ratePerEpoch.toInt := by
    cases hl : entry.locate ledger.charter i with
    | current =>
      rw [hl] at hi
      cases hi
    | legacy _ epoch' =>
      rw [hl] at hi
      cases hi
      obtain ⟨terms, hterms, -, hindex⟩ := Asset.locate_eq_legacy hl
      exact ⟨terms, hterms, hindex⟩
  obtain ⟨terms, hterms, hindex⟩ := stands hlocate
  obtain ⟨terms', hterms', hindex'⟩ := stands h'
  obtain rfl := Option.some.inj (hterms.symm.trans hterms')
  exact Signed.ext (hindex.trans hindex'.symm)

/-- On the same terms an index stands for the same epoch. -/
theorem SameTerms.epochAt (h : SameTerms ledger ledger') : ledger'.epochAt = ledger.epochAt := by
  funext asset index
  have hsame := h.elim_eq asset none (f := fun entry => (entry.locate ledger.charter index).epoch?)
    fun _ => rfl
  unfold Ledger.epochAt
  rw [h.charter]
  revert hsame
  cases ledger.assets.get? asset <;> cases ledger'.assets.get? asset <;> exact id

/-- The legacy positions at an index are the same if the legacy store is. -/
theorem legacyAt_congr (h : SameTerms ledger ledger')
    (hl : ledger'.legacyDeposits = ledger.legacyDeposits) : ledger'.legacyAt = ledger.legacyAt := by
  funext slot
  unfold Ledger.legacyAt
  rw [h.epochAt]
  unfold Ledger.legacyPosition
  rw [hl]

/-! ### What changes when parcels leave -/

/-- A slot has yielded a quantity and a value: the current store as far as it goes, and the legacy
store for the rest. -/
structure Yields (ledger ledger' : Ledger) (slot : Slot Index) (parcel : ℤ × ℤ) : Prop where
  held : ledger'.heldAt slot = ledger.heldAt slot - parcel
  current : (contents (ledger'.deposits.get? slot)).1 =
    max 0 ((contents (ledger.deposits.get? slot)).1 - parcel.1)
  legacy : contents (ledger'.legacyAt slot) ≤ contents (ledger.legacyAt slot)
  /-- Where no quantity is asked for, nothing has changed. -/
  untouched : parcel.1 = 0 → ledger'.deposits.get? slot = ledger.deposits.get? slot ∧
    ledger'.legacyAt slot = ledger.legacyAt slot
  /-- Where the legacy position keeps its quantity, it keeps its value. -/
  spared : (contents (ledger'.legacyAt slot)).1 = (contents (ledger.legacyAt slot)).1 →
    ledger'.legacyAt slot = ledger.legacyAt slot

namespace Yields

/-- A slot that is as before has yielded nothing. -/
theorem of_eq (hc : ledger'.deposits.get? slot = ledger.deposits.get? slot)
    (hl : ledger'.legacyAt slot = ledger.legacyAt slot) : Yields ledger ledger' slot 0 where
  held := by rw [heldAt, hc, hl, sub_zero, heldAt]
  current := by
    rw [hc, Prod.fst_zero, sub_zero]
    exact (max_eq_right (Position.contents_nonneg _).1).symm
  legacy := by rw [hl]
  untouched _ := ⟨hc, hl⟩
  spared _ := hl

theorem refl (ledger : Ledger) (slot : Slot Index) : Yields ledger ledger slot 0 := of_eq rfl rfl

/-- What is asked for later is paid out of what is left. -/
theorem trans (h : Yields ledger ledger' slot parcel) (h' : Yields ledger' ledger'' slot parcel')
    (hnn : 0 ≤ parcel) (hnn' : 0 ≤ parcel') : Yields ledger ledger'' slot (parcel + parcel') where
  held := by rw [h'.held, h.held, sub_sub]
  current := by
    have hasked : 0 ≤ parcel'.1 := hnn'.1
    rw [h'.current, h.current, Prod.fst_add]
    omega
  legacy := h'.legacy.trans h.legacy
  untouched hzero := by
    have hasked : 0 ≤ parcel.1 := hnn.1
    have hasked' : 0 ≤ parcel'.1 := hnn'.1
    rw [Prod.fst_add] at hzero
    obtain ⟨hc, hl⟩ := h.untouched (by omega)
    obtain ⟨hc', hl'⟩ := h'.untouched (by omega)
    exact ⟨hc'.trans hc, hl'.trans hl⟩
  spared hkept := by
    have hle := h.legacy.1
    have hle' := h'.legacy.1
    exact (h'.spared (by omega)).trans (h.spared (by omega))

end Yields

/-- Positions of some accounts in an asset came or went, at indices or under the epochs of indices,
and the totals held in the asset changed by as much; nothing else did. -/
structure Rebooks (owners : List AccountId) (asset : AssetId) (ledger ledger' : Ledger)
    (change : ℤ × ℤ) : Prop extends SameTerms ledger ledger' where
  deposits : ∀ slot : Slot Index, slot.owner ∉ owners ∨ slot.asset ≠ asset →
    ledger'.deposits.get? slot = ledger.deposits.get? slot
  legacyDeposits : ∀ slot : Slot Epoch, slot.owner ∉ owners ∨ slot.asset ≠ asset ∨
    (∀ index, ledger.epochAt asset index ≠ some slot.mark) →
    ledger'.legacyDeposits.get? slot = ledger.legacyDeposits.get? slot
  others : ∀ id, id ≠ asset → ledger'.assets.get? id = ledger.assets.get? id
  totals : ∀ {entry entry'}, ledger.assets.get? asset = some entry →
    ledger'.assets.get? asset = some entry' →
      contents (some entry'.held) = contents (some entry.held) + change
  rest : ledger' = { ledger with
    deposits := ledger'.deposits
    legacyDeposits := ledger'.legacyDeposits
    assets := ledger'.assets }

namespace Rebooks

theorem refl (ledger : Ledger) : Rebooks owners asset ledger ledger 0 where
  toSameTerms := .refl ledger
  deposits _ _ := rfl
  legacyDeposits _ _ := rfl
  others _ _ := rfl
  totals h h' := by rw [Option.some.inj (h'.symm.trans h), add_zero]
  rest := rfl

theorem trans (h : Rebooks owners asset ledger ledger' change)
    (h' : Rebooks owners asset ledger' ledger'' change') :
    Rebooks owners asset ledger ledger'' (change + change') where
  toSameTerms := h.toSameTerms.trans h'.toSameTerms
  deposits slot hs := (h'.deposits slot hs).trans (h.deposits slot hs)
  legacyDeposits slot hs := by
    have hs' := hs
    rw [← h.toSameTerms.epochAt] at hs'
    exact (h'.legacyDeposits slot hs').trans (h.legacyDeposits slot hs)
  others id hid := (h'.others id hid).trans (h.others id hid)
  totals := by
    intro entry entry'' hentry hentry''
    obtain ⟨entry', hentry', -⟩ := h.toSameTerms.entry hentry
    rw [h'.totals hentry' hentry'', h.totals hentry hentry', add_assoc]
  rest := by rw [h'.rest, h.rest]

/-- More accounts may be named. -/
theorem mono (h : Rebooks owners asset ledger ledger' change) (hsub : owners ⊆ owners') :
    Rebooks owners' asset ledger ledger' change :=
  { h with
    deposits := fun slot hs => h.deposits slot (hs.imp_left fun hn hi => hn (hsub hi))
    legacyDeposits := fun slot hs =>
      h.legacyDeposits slot (hs.imp_left fun hn hi => hn (hsub hi)) }

/-- If the totals are the same again, so is the registry. -/
theorem assets_eq (h : Rebooks owners asset ledger ledger' 0) : ledger'.assets = ledger.assets := by
  refine SortedMap.ext_get? fun id => ?_
  by_cases hid : id = asset
  · subst hid
    cases hentry : ledger.assets.get? id with
    | none =>
      have hterms := h.assets id
      rwa [hentry, Option.map_none, Option.map_eq_none_iff] at hterms
    | some entry =>
      obtain ⟨entry', hentry', hsame⟩ := h.toSameTerms.entry hentry
      have htotals := h.totals hentry hentry'
      rw [add_zero] at htotals
      rw [hentry', Asset.eq_of_held hsame (Position.contents_some_inj htotals)]
  · exact h.others id hid

end Rebooks

end Ledger

/-! ### Parcels leave -/

namespace Ledger

variable {ledger ledger' ledger'' : Ledger} {slot : Slot Index} {entry : Asset} {amount : Amount}
  {fromCurrent fromLegacy : ℕ} {index : Index} {parcel : ℤ × ℤ}

/-- The quantity of a slot is the first part of what it holds. -/
theorem quantity_contents (ledger : Ledger) (slot : Slot Index) :
    (contents (ledger.deposits.get? slot)).1 =
      (ledger.quantityAt slot.owner slot.asset slot.mark).toNat := by
  rw [quantityAt, positionAt]
  cases ledger.deposits.get? slot <;> rfl

/-- The totals of the assets do not matter for what a slot yields. -/
theorem Yields.withAsset {id : AssetId} {entry' : Asset} (h : Yields ledger ledger' slot parcel)
    (he : ledger'.asset id = .ok entry) (hs : entry'.emptied = entry.emptied) :
    Yields ledger (ledger'.withAsset id entry') slot parcel := by
  have hlegacy : (ledger'.withAsset id entry').legacyAt = ledger'.legacyAt :=
    legacyAt_congr (.of_insert rfl rfl he hs) rfl
  refine ⟨?_, h.current, ?_, ?_, ?_⟩
  · rw [heldAt, hlegacy]
    exact h.held
  · rw [hlegacy]
    exact h.legacy
  · rw [hlegacy]
    exact h.untouched
  · rw [hlegacy]
    exact h.spared

/-- The legacy store is spared as long as the current one holds enough. -/
theorem takeAt_spares {value : Amount} (h : ledger.takeAt entry slot amount = .ok (value, ledger'))
    (hle : amount ≤ ledger.quantityAt slot.owner slot.asset slot.mark) :
    ledger'.legacyDeposits = ledger.legacyDeposits := by
  unfold takeAt at h
  rw [if_pos hle] at h
  obtain ⟨deposits, -, rfl⟩ := takeCurrent_eq_ok.mp h
  rfl

namespace StoresPay

theorem legacyAt (h : ledger.StoresPay entry slot amount fromCurrent fromLegacy ledger')
    (he : ledger.asset slot.asset = .ok entry) (other : Slot Index) (ha : other.asset = slot.asset) :
    ledger'.legacyAt other = ((entry.locate ledger.charter other.mark).epoch?).bind
      (ledger'.legacyPosition other.owner slot.asset) := by
  have hterms : SameTerms ledger ledger' := by
    rw [h.frame]
    exact ⟨rfl, fun _ => rfl⟩
  rw [Ledger.legacyAt, hterms.epochAt, ha, epochAt_eq he]

/-- What the two stores have paid is what was asked for. -/
theorem yields (h : ledger.StoresPay entry slot amount fromCurrent fromLegacy ledger')
    (he : ledger.asset slot.asset = .ok entry) (hne : amount ≠ 0)
    (hspares : amount ≤ ledger.quantityAt slot.owner slot.asset slot.mark →
      ledger'.legacyDeposits = ledger.legacyDeposits) :
    Yields ledger ledger' slot (amount.toNat, (fromCurrent + fromLegacy : ℕ)) := by
  have hcurrent := h.current.contents
  have hbefore : ledger.legacyAt slot = ((entry.locate ledger.charter slot.mark).epoch?).bind
      (ledger.legacyPosition slot.owner slot.asset) := by
    rw [Ledger.legacyAt, epochAt_eq he]
  have hlegacy : contents (ledger'.legacyAt slot) = contents (ledger.legacyAt slot) -
      (((amount.toNat - min amount.toNat
        (ledger.quantityAt slot.owner slot.asset slot.mark).toNat : ℕ) : ℤ),
        (fromLegacy : ℤ)) := by
    rw [h.legacyAt he slot rfl, hbefore]
    cases hepoch : (entry.locate ledger.charter slot.mark).epoch? with
    | none =>
      obtain ⟨hle, hnothing⟩ := h.noLegacy hepoch
      rw [Unsigned.le_iff] at hle
      rw [hnothing, Nat.min_eq_left hle, Nat.sub_self]
      rfl
    | some epoch => exact (h.legacy epoch hepoch).contents
  have hmin := Nat.min_le_left amount.toNat
    (ledger.quantityAt slot.owner slot.asset slot.mark).toNat
  refine ⟨?_, ?_, ?_, fun hzero => ?_, fun hkept => ?_⟩
  · rw [heldAt, hcurrent, hlegacy, sub_add_sub_comm, Prod.mk_add_mk ((_ : ℕ) : ℤ), ← Nat.cast_add,
      ← Nat.cast_add, Nat.add_sub_cancel' hmin, heldAt]
  · rw [hcurrent, Prod.fst_sub, quantity_contents]
    omega
  · rw [hlegacy]
    exact sub_le_self _ ⟨Int.natCast_nonneg _, Int.natCast_nonneg _⟩
  · exact absurd (Unsigned.ext (Int.ofNat.inj hzero)) hne
  · rw [hlegacy, Prod.fst_sub] at hkept
    have hterms : SameTerms ledger ledger' := by
      rw [h.frame]
      exact ⟨rfl, fun _ => rfl⟩
    rw [legacyAt_congr hterms (hspares (by rw [Unsigned.le_iff]; omega))]

/-- Other indices have yielded nothing, because no other index is looked up under the same epoch. -/
theorem yields_other (h : ledger.StoresPay entry slot amount fromCurrent fromLegacy ledger')
    (he : ledger.asset slot.asset = .ok entry) (hne : index ≠ slot.mark) :
    Yields ledger ledger' ⟨slot.owner, slot.asset, index⟩ 0 := by
  refine .of_eq (h.others _ fun heq => hne (congrArg Slot.mark heq)) ?_
  rw [h.legacyAt he ⟨slot.owner, slot.asset, index⟩ rfl, Ledger.legacyAt, epochAt_eq he]
  dsimp only
  cases hepoch : (entry.locate ledger.charter index).epoch? with
  | none => rfl
  | some epoch =>
    refine h.legacyOthers ⟨slot.owner, slot.asset, epoch⟩ fun epoch' hepoch' heq => hne ?_
    obtain rfl : epoch = epoch' := congrArg Slot.mark heq
    rw [← epochAt_eq he] at hepoch hepoch'
    exact epochAt_inj hepoch hepoch'

end StoresPay

end Ledger

open Ledger (Yields Rebooks)

variable {ledger : Ledger} {owner : AccountId} {asset : AssetId}

/-- Removing nothing leaves everything. -/
theorem removePosition_zero {slot : Slot Index} {out : Outcome Amount}
    (h : removePosition slot 0 ledger = .ok out) : out.result = 0 ∧ out.ledger = ledger := by
  obtain ⟨-, rfl⟩ := removePosition_zero_eq_ok.mp h
  exact ⟨rfl, rfl⟩

/-- **One parcel leaves**: its slot yields what it holds, -/
theorem removePosition_yields {slot : Slot Index} {amount : Amount} {out : Outcome Amount}
    (h : removePosition slot amount ledger = .ok out) (index : Index) :
    Yields ledger out.ledger ⟨slot.owner, slot.asset, index⟩
      (if slot.mark = index then Parcel.contents (slot.mark, amount, out.result) else 0) := by
  by_cases hzero : amount = 0
  · subst hzero
    obtain ⟨hvalue, hledger⟩ := removePosition_zero h
    have hnothing : Parcel.contents (slot.mark, 0, out.result) = 0 := by
      rw [hvalue]
      rfl
    rw [hledger, hnothing, ite_self]
    exact .refl ledger _
  obtain ⟨value, taken, entry, entry', -, hentry, htake, hrelease, rfl⟩ :=
    (removePosition_eq_ok hzero).mp h
  obtain ⟨fromCurrent, fromLegacy, hvalue, hpay⟩ := Ledger.storesPay_of_takeAt hzero htake
  have htaken : taken.asset slot.asset = .ok entry := by
    rw [hpay.frame]
    exact hentry
  have hsame := Asset.emptied_of_release hrelease
  split
  next heq =>
    have hyields := hpay.yields hentry hzero (Ledger.takeAt_spares htake)
    rw [← hvalue] at hyields
    subst heq
    exact hyields.withAsset htaken hsame
  next hne => exact (hpay.yields_other hentry (Ne.symm hne)).withAsset htaken hsame

/-- and nothing else changes but the totals held in the asset. -/
theorem removePosition_rebooks {slot : Slot Index} {amount : Amount} {out : Outcome Amount}
    (h : removePosition slot amount ledger = .ok out) :
    Rebooks [slot.owner] slot.asset ledger out.ledger
      (-Parcel.contents (slot.mark, amount, out.result)) := by
  by_cases hzero : amount = 0
  · subst hzero
    obtain ⟨hvalue, hledger⟩ := removePosition_zero h
    have hnothing : Parcel.contents (slot.mark, 0, out.result) = 0 := by
      rw [hvalue]
      rfl
    rw [hledger, hnothing, neg_zero]
    exact .refl ledger
  have hterms := (removePosition_moves h).2.keeps.toSameTerms
  obtain ⟨_, _, entry, _, -, hentry, -, -, -⟩ := (removePosition_eq_ok hzero).mp h
  obtain ⟨taken, fromCurrent, fromLegacy, entry', -, hpay, hledger, -, hquantity, hvalue⟩ :=
    Ledger.paid_of_removePosition hentry hzero h
  have hassets : out.ledger.assets = ledger.assets.insert slot.asset entry' := by
    rw [hledger, hpay.frame]
    rfl
  have hdeposits : out.ledger.deposits = taken.deposits := by
    rw [hledger]
    rfl
  have hlegacy : out.ledger.legacyDeposits = taken.legacyDeposits := by
    rw [hledger]
    rfl
  refine ⟨hterms, fun other hother => ?_, fun other hother => ?_, fun id hid => ?_, ?_, ?_⟩
  · rw [hdeposits]
    refine hpay.others other fun heq => ?_
    subst heq
    simp at hother
  · rw [hlegacy]
    refine hpay.legacyOthers other fun epoch hepoch heq => ?_
    subst heq
    rcases hother with hother | hother | hother
    · exact hother (List.mem_singleton_self _)
    · exact hother rfl
    · exact hother slot.mark (by rw [Ledger.epochAt_eq hentry, hepoch])
  · rw [hassets]
    exact SortedMap.get?_insert_of_ne _ hid _
  · intro old new hold hnew
    obtain rfl := Option.some.inj ((asset_eq_ok.mp hentry).symm.trans hold)
    rw [hassets, SortedMap.get?_insert_self] at hnew
    obtain rfl := Option.some.inj hnew
    rw [Position.contents_some, Position.contents_some, ← sub_eq_add_neg, Parcel.contents,
      Prod.mk_sub_mk, Asset.held, Asset.held, ← hquantity, ← hvalue]
    simp
  · rw [hledger, hpay.frame]
    rfl

/-- Quantity and value of a removal. -/
def Removal.contents (removal : Removal) : ℤ × ℤ :=
  (removal.totalQuantity.toNat, removal.totalValue.toNat)

/-- Parcels have left the stores of an account. -/
structure Sends (owner : AccountId) (asset : AssetId) (ledger ledger' : Ledger)
    (parcels : List Parcel) : Prop where
  yields : ∀ index, Yields ledger ledger' ⟨owner, asset, index⟩ (Parcel.totalAt index parcels)
  books : Rebooks [owner] asset ledger ledger' (-Parcel.total parcels)
  /-- A parcel of no quantity has no value either. -/
  nothing : ∀ parcel ∈ parcels, parcel.2.1 = 0 → parcel.2.2 = 0

/-- A sum is in range if it is part of an amount. -/
theorem Unsigned.add_succeeds {a b c : Amount} (h : a.toNat + b.toNat ≤ c.toNat) :
    ∃ sum, a.add b = .ok sum :=
  ⟨⟨_, h.trans_lt c.toNat_lt⟩, add_eq_ok.mpr rfl⟩

namespace Removal

variable {removal removal' : Removal}

/-- A removal is known by its sums and its values. -/
theorem ext_contents (hcontents : removal'.contents = removal.contents)
    (hvalues : removal'.values = removal.values) : removal' = removal := by
  obtain ⟨value, quantity, values⟩ := removal
  obtain ⟨value', quantity', values'⟩ := removal'
  obtain rfl : quantity' = quantity := Unsigned.ext (Int.ofNat.inj (congrArg Prod.fst hcontents))
  obtain rfl : value' = value := Unsigned.ext (Int.ofNat.inj (congrArg Prod.snd hcontents))
  obtain rfl : values' = values := hvalues
  rfl

/-- A removal holds more by the parcel that is added to it. -/
theorem contents_of_extend {amount value : Amount} {index : Index}
    (h : removal.extend amount value = .ok removal') :
    removal'.contents = removal.contents + Parcel.contents (index, amount, value) := by
  obtain ⟨hvalue, hquantity, -⟩ := extend_eq_ok h
  rw [contents, hquantity, hvalue, Nat.cast_add, Nat.cast_add]
  rfl

/-- A removal takes one more entry if that is part of a removal. -/
theorem extend_succeeds {amount value : Amount} {index : Index}
    (h : removal.contents + Parcel.contents (index, amount, value) ≤ removal'.contents) :
    ∃ extended, removal.extend amount value = .ok extended := by
  have hquantity : removal.totalQuantity.toNat + amount.toNat ≤ removal'.totalQuantity.toNat :=
    Int.ofNat_le.mp h.1
  have hvalue : removal.totalValue.toNat + value.toNat ≤ removal'.totalValue.toNat :=
    Int.ofNat_le.mp h.2
  obtain ⟨totalValue, haddValue⟩ := Unsigned.add_succeeds hvalue
  obtain ⟨totalQuantity, haddQuantity⟩ := Unsigned.add_succeeds hquantity
  exact ⟨_, bind_eq_ok.mpr ⟨_, haddValue, bind_eq_ok.mpr ⟨_, haddQuantity, rfl⟩⟩⟩

end Removal

/-- What was asked for of a parcel. -/
def Parcel.asked (parcel : Parcel) : Index × Amount := (parcel.1, parcel.2.1)

/-- Parcels leave the stores of an account, one after the other. -/
inductive Departs (owner : AccountId) (asset : AssetId) :
    Ledger → List Parcel → Event.Log → Ledger → Prop
  | nil (ledger : Ledger) : Departs owner asset ledger [] ∅ ledger
  | cons {ledger ledger' : Ledger} {index : Index} {amount : Amount} {out : Outcome Amount}
      {parcels : List Parcel} {events : Event.Log}
      (first : removePosition ⟨owner, asset, index⟩ amount ledger = .ok out)
      (rest : Departs owner asset out.ledger parcels events ledger') :
      Departs owner asset ledger ((index, amount, out.result) :: parcels) (out.events ++ events)
        ledger'

/-- **Removing entry after entry** is parcels leaving one after the other, with a sum that is in
range.  No sum on the way is larger. -/
theorem removeEach_eq_ok {entries : List (Index × Amount)} {removal : Removal}
    {out : Outcome Removal} :
    removeEach owner asset entries removal ledger = .ok out ↔ ∃ parcels : List Parcel,
      parcels.map Parcel.asked = entries ∧
        Departs owner asset ledger parcels out.events out.ledger ∧
          out.result.values = removal.values ++ parcels.map (·.2.2) ∧
            out.result.contents = removal.contents + Parcel.total parcels := by
  constructor
  · intro h
    induction entries generalizing removal ledger out with
    | nil =>
      obtain rfl := pure_eq_ok.mp h
      exact ⟨[], rfl, .nil ledger, (List.append_nil _).symm, (add_zero _).symm⟩
    | cons entry entries ih =>
      obtain ⟨index, amount⟩ := entry
      obtain ⟨first, rest, hfirst, hnext, rfl⟩ := bind_apply_ok.mp h
      obtain ⟨extended, hextend, hrest⟩ := lift_bind.mp hnext
      obtain ⟨parcels, hasked, hdeparts, hvalues, hcontents⟩ := ih hrest
      refine ⟨(index, amount, first.result) :: parcels, ?_, .cons hfirst hdeparts, ?_, ?_⟩
      · rw [List.map_cons, hasked, Parcel.asked]
      · rw [hvalues, (Removal.extend_eq_ok hextend).2.2, List.map_cons, List.append_assoc,
          List.singleton_append]
      · rw [hcontents, Removal.contents_of_extend hextend, Parcel.total_cons, add_assoc]
  · obtain ⟨result, ledger', events⟩ := out
    rintro ⟨parcels, rfl, hdeparts, hvalues, hcontents⟩
    dsimp only at hdeparts hvalues hcontents
    induction hdeparts generalizing removal with
    | nil ledger =>
      rw [Parcel.total_nil, add_zero] at hcontents
      rw [List.map_nil, List.append_nil] at hvalues
      rw [Removal.ext_contents hcontents hvalues]
      rfl
    | @cons ledger ledger' index amount first parcels events hfirst _ ih =>
      rw [Parcel.total_cons, ← add_assoc] at hcontents
      have hle : removal.contents + Parcel.contents (index, amount, first.result) ≤
          result.contents := by
        rw [hcontents]
        exact le_add_of_nonneg_right (Parcel.total_nonneg parcels)
      obtain ⟨extended, hextend⟩ := Removal.extend_succeeds hle
      rw [← Removal.contents_of_extend hextend] at hcontents
      rw [List.map_cons, ← List.singleton_append, ← List.append_assoc,
        ← (Removal.extend_eq_ok hextend).2.2] at hvalues
      exact bind_apply_ok.mpr ⟨first, _, hfirst, lift_bind.mpr ⟨extended, hextend,
        ih hvalues hcontents⟩, rfl⟩

/-- Parcels are told by what was asked for and what came of it. -/
theorem Parcel.zip_eq {indices : List Index} {amounts : List Amount} {parcels : List Parcel}
    (hlength : indices.length = amounts.length)
    (hasked : parcels.map Parcel.asked = indices.zip amounts) :
    indices.zip (amounts.zip (parcels.map (·.2.2))) = parcels := by
  have hindices : indices = parcels.map (·.1) := by
    refine (List.map_fst_zip hlength.le).symm.trans ?_
    rw [← hasked, List.map_map]
    rfl
  have hamounts : amounts = parcels.map (·.2.1) := by
    refine (List.map_snd_zip hlength.ge).symm.trans ?_
    rw [← hasked, List.map_map]
    rfl
  rw [hindices, hamounts, List.zip_map', List.zip_map']
  exact List.map_id' parcels

/-- **Parcels leave**: each is paid out of what the parcels before it have left. -/
theorem Departs.sends {ledger' : Ledger} {parcels : List Parcel} {events : Event.Log}
    (h : Departs owner asset ledger parcels events ledger') :
    Sends owner asset ledger ledger' parcels := by
  induction h with
  | nil ledger =>
    refine ⟨fun index => .refl ledger _, ?_, List.forall_mem_nil _⟩
    rw [Parcel.total_nil, neg_zero]
    exact .refl ledger
  | cons first _ ih =>
    refine ⟨fun other => ?_, ?_,
      List.forall_mem_cons.mpr ⟨(removePosition_moves first).1, ih.nothing⟩⟩
    · rw [Parcel.totalAt_cons]
      refine (removePosition_yields first other).trans (ih.yields other) ?_
        (Parcel.totalAt_nonneg _ _)
      split
      · exact Parcel.contents_nonneg _
      · exact le_rfl
    · rw [Parcel.total_cons, neg_add]
      exact (removePosition_rebooks first).trans ih.books

/-- A removal of several positions has the parcels leave, each with the value that was removed for
it. -/
theorem removeMultiple_sends {indices : List Index} {amounts : List Amount} {out : Outcome Removal}
    (h : removeMultiple owner asset indices amounts ledger = .ok out) :
    out.result.contents = Parcel.total (indices.zip (amounts.zip out.result.values)) ∧
      Sends owner asset ledger out.ledger (indices.zip (amounts.zip out.result.values)) := by
  obtain ⟨hlength, hremove⟩ := removeMultiple_stages h
  obtain ⟨parcels, hasked, hdeparts, hvalues, hcontents⟩ := removeEach_eq_ok.mp hremove
  have hsame : out.result.values = parcels.map (·.2.2) := hvalues
  rw [hsame, Parcel.zip_eq hlength hasked]
  exact ⟨hcontents.trans (zero_add _), hdeparts.sends⟩

/-! ### Parcels arrive -/

/-- Parcels have come into the current store for an account. -/
structure Receives (owner : AccountId) (asset : AssetId) (ledger ledger' : Ledger)
    (parcels : List Parcel) : Prop where
  current : ∀ index, contents (ledger'.deposits.get? ⟨owner, asset, index⟩) =
    contents (ledger.deposits.get? ⟨owner, asset, index⟩) + Parcel.totalAt index parcels
  /-- Where no quantity came, nothing has changed. -/
  untouched : ∀ index, (Parcel.totalAt index parcels).1 = 0 →
    ledger'.deposits.get? ⟨owner, asset, index⟩ = ledger.deposits.get? ⟨owner, asset, index⟩
  legacy : ledger'.legacyDeposits = ledger.legacyDeposits
  books : Rebooks [owner] asset ledger ledger' (Parcel.total parcels)

/-- **One parcel arrives.** -/
theorem addPositionAt_receives {index : Index} {amount value : Amount} {out : Outcome Unit}
    (h : addPositionAt ⟨owner, asset, index⟩ ⟨amount, value⟩ ledger = .ok out) :
    Receives owner asset ledger out.ledger [(index, amount, value)] := by
  have hterms := (Ledger.Keeps.addPositionAt h).toSameTerms
  obtain ⟨deposits, entry, entry', hquantity, -, -, hput, hentry, htake, rfl⟩ :=
    addPositionAt_eq_ok.mp h
  obtain ⟨_, _, hq, hv, rfl⟩ := Asset.take_eq_ok.mp htake
  have helse {slot : Slot Index} (hne : slot ≠ ⟨owner, asset, index⟩) :
      deposits.get? slot = ledger.deposits.get? slot := SortedMap.get?_of_put hput hne
  refine ⟨fun other => ?_, fun other hzero => helse fun heq => ?_, rfl, hterms, fun slot hslot => ?_,
    fun slot _ => rfl, fun id hid => SortedMap.get?_insert_of_ne _ hid _, ?_, rfl⟩
  · rw [Parcel.totalAt_cons, Parcel.totalAt_nil, add_zero]
    split
    next heq =>
      subst heq
      exact SortedMap.contents_of_put hput
    next hne =>
      rw [add_zero]
      exact congrArg contents (helse fun heq => hne (congrArg Slot.mark heq).symm)
  · obtain rfl : other = index := congrArg Slot.mark heq
    rw [Parcel.totalAt_cons, Parcel.totalAt_nil, add_zero, if_pos rfl] at hzero
    exact hquantity (Unsigned.ext (Int.ofNat.inj hzero))
  · refine helse fun heq => ?_
    subst heq
    simp at hslot
  · intro old new hold hnew
    obtain rfl := Option.some.inj ((asset_eq_ok.mp hentry).symm.trans hold)
    have hnew' := hnew.symm.trans (SortedMap.get?_insert_self ..)
    obtain rfl := Option.some.inj hnew'
    rw [Parcel.total_cons, Parcel.total_nil, add_zero, Position.contents_some,
      Position.contents_some, Asset.held, Asset.held, Parcel.contents, Prod.mk_add_mk, hq, hv]
    simp

namespace Receives

variable {ledger' ledger'' : Ledger} {parcels parcels' : List Parcel}

theorem refl (ledger : Ledger) : Receives owner asset ledger ledger [] :=
  ⟨fun _ => (add_zero _).symm, fun _ _ => rfl, rfl, .refl ledger⟩

/-- A parcel that holds nothing need not be entered. -/
theorem nothing (ledger : Ledger) (index : Index) :
    Receives owner asset ledger ledger [(index, 0, 0)] := by
  have hzero (other : Index) : Parcel.totalAt other [(index, 0, 0)] = 0 := by
    rw [Parcel.totalAt_cons, Parcel.totalAt_nil, add_zero]
    split <;> rfl
  refine ⟨fun other => ?_, fun _ _ => rfl, rfl, .refl ledger⟩
  rw [hzero, add_zero]

/-- A parcel is received, and then the others. -/
theorem cons {parcel : Parcel} (h : Receives owner asset ledger ledger' [parcel])
    (h' : Receives owner asset ledger' ledger'' parcels) :
    Receives owner asset ledger ledger'' (parcel :: parcels) where
  current index := by
    have hfirst := h.current index
    rw [Parcel.totalAt_cons, Parcel.totalAt_nil, add_zero] at hfirst
    rw [h'.current, hfirst, Parcel.totalAt_cons, add_assoc]
  untouched index hzero := by
    have hfirst := h.untouched index
    have hnn := (Parcel.totalAt_nonneg index [parcel]).1
    have hnn' := (Parcel.totalAt_nonneg index parcels).1
    rw [Parcel.totalAt_cons, Parcel.totalAt_nil, add_zero] at hfirst hnn
    rw [Parcel.totalAt_cons, Prod.fst_add] at hzero
    simp only [Prod.fst_zero] at hnn hnn'
    exact (h'.untouched index (by omega)).trans (hfirst (by omega))
  legacy := h'.legacy.trans h.legacy
  books := by
    have hbooks := h.books.trans h'.books
    rwa [Parcel.total_cons, Parcel.total_nil, add_zero] at hbooks

end Receives

/-- **Parcels arrive**: the induction is on the parcels, and one of no quantity is passed over. -/
theorem receiveEach_receives {sender : AccountId} {parcels : List Parcel} {out : Outcome Unit}
    (hnothing : ∀ parcel ∈ parcels, parcel.2.1 = 0 → parcel.2.2 = 0)
    (h : receiveEach sender owner asset parcels ledger = .ok out) :
    Receives owner asset ledger out.ledger parcels := by
  induction parcels generalizing ledger out with
  | nil =>
    obtain rfl := pure_eq_ok.mp h
    exact .refl ledger
  | cons parcel parcels ih =>
    obtain ⟨index, amount, value⟩ := parcel
    obtain ⟨hzero, hnothing'⟩ := List.forall_mem_cons.mp hnothing
    unfold receiveEach at h
    split at h
    next hamount =>
      -- What is passed over holds nothing.
      obtain rfl : amount = 0 := hamount
      obtain rfl : value = 0 := hzero rfl
      exact (Receives.nothing ledger index).cons (ih hnothing' h)
    next =>
      obtain ⟨added, _, hadd, h₁, rfl⟩ := bind_apply_ok.mp h
      obtain ⟨rest, hrest, rfl⟩ := emit_bind.mp h₁
      have hreceived := ih hnothing' hrest
      exact (addPositionAt_receives hadd).cons hreceived

end StalkLedger
