import Mathlib.Algebra.BigOperators.Group.List.Basic
import Mathlib.Data.List.Perm.Basic
import StalkLedger.Proofs.Parcels

/-!
# The order of the entries

A withdrawal names several indices, and they are gone through one after the other.  If no index is
named twice it does not matter in which order.

* **Different indices reach different entries** (`Asset.Reach.index_eq`): an index reaches its slot
  of the current store, and the legacy epoch that it is looked up under.
* **A removal is local** (`Ledger.takeAt_local`, `Ledger.untouched_of_takeAt`): it reads what its
  index reaches, and writes nothing else.  So two removals change places (`removePosition_swap`).
* **Parcels leave in any order** (`Departs.perm`).  Every order of the parcels can be reached by
  exchanging neighbours.
* **Sums are not told apart by the order of the terms**, and a checked sum fits in one order if it
  fits in another, because no part of it is larger than the whole (`removeEach_eq_ok`,
  `grownOf_perm`).

**Rearrangement** (`Vault.withdrawals_rearranged`).  A withdrawal is answered in one order if and
only if it is answered in another, with the same receipt, and leaves the same vault but for the
order of what was recorded.
-/

namespace StalkLedger

open StalkLedger.Action

/-! ### What an index reaches -/

/-- A place for a position, in either store. -/
inductive Cell
  | current (slot : Slot Index)
  | legacy (slot : Slot Epoch)

/-- What is in a place. -/
def Ledger.cell (ledger : Ledger) : Cell → Option Position
  | .current slot => ledger.deposits.get? slot
  | .legacy slot => ledger.legacyDeposits.get? slot

/-- The places that a removal at an index may draw on. -/
inductive Asset.Reach (entry : Asset) (charter : Charter) (slot : Slot Index) : Cell → Prop
  | current : Reach entry charter slot (.current slot)
  | legacy {epoch : Epoch} (h : (entry.locate charter slot.mark).epoch? = some epoch) :
      Reach entry charter slot (.legacy ⟨slot.owner, slot.asset, epoch⟩)

/-- **Different indices reach different places.** -/
theorem Asset.Reach.index_eq {ledger : Ledger} {entry : Asset} {owner : AccountId} {asset : AssetId}
    {index index' : Index} {cell : Cell} (he : ledger.asset asset = .ok entry)
    (h : entry.Reach ledger.charter ⟨owner, asset, index⟩ cell)
    (h' : entry.Reach ledger.charter ⟨owner, asset, index'⟩ cell) : index = index' := by
  cases h with
  | current =>
    cases h'
    rfl
  | legacy hepoch =>
    cases h' with
    | legacy hepoch' =>
      rw [← Ledger.epochAt_eq he] at hepoch hepoch'
      exact Ledger.epochAt_inj hepoch hepoch'

namespace Ledger

variable {ledger ledger' : Ledger}

theorem cell_withAsset (ledger : Ledger) (id : AssetId) (entry : Asset) :
    (ledger.withAsset id entry).cell = ledger.cell :=
  funext fun cell => by cases cell <;> rfl

/-- The stores are told by what is in each place. -/
theorem eq_of_cells (hcells : ledger'.cell = ledger.cell)
    (hrest : ledger' = { ledger with
      deposits := ledger'.deposits, legacyDeposits := ledger'.legacyDeposits }) :
    ledger' = ledger := by
  have hdeposits : ledger'.deposits = ledger.deposits :=
    SortedMap.ext_get? fun slot => congrFun hcells (.current slot)
  have hlegacy : ledger'.legacyDeposits = ledger.legacyDeposits :=
    SortedMap.ext_get? fun slot => congrFun hcells (.legacy slot)
  rw [hrest, hdeposits, hlegacy]

end Ledger

/-! ### Removals are local -/

namespace Ledger

variable {ledger other taken : Ledger} {slot : Slot Index} {entry : Asset} {amount value : Amount}

theorem quantityAt_local (h : other.deposits.get? slot = ledger.deposits.get? slot) :
    other.quantityAt slot.owner slot.asset slot.mark =
      ledger.quantityAt slot.owner slot.asset slot.mark :=
  congrArg (fun entry => (entry.map Position.quantity).getD 0) h

/-- The decision depends on what the index reaches, -/
theorem draw_local (hc : other.charter = ledger.charter)
    (hsame : ∀ cell, entry.Reach ledger.charter slot cell → other.cell cell = ledger.cell cell) :
    other.draw entry slot amount = ledger.draw entry slot amount := by
  have hheld := quantityAt_local (hsame _ .current)
  unfold draw
  rw [hheld, hc]
  cases hl : entry.locate ledger.charter slot.mark with
  | current => rfl
  | legacy index epoch =>
    have hepoch : (entry.locate ledger.charter slot.mark).epoch? = some epoch :=
      congrArg Location.epoch? hl
    have hheldLegacy : other.legacyQuantity slot.owner slot.asset epoch =
        ledger.legacyQuantity slot.owner slot.asset epoch :=
      congrArg (fun entry => (entry.map Position.quantity).getD 0) (hsame _ (.legacy hepoch))
    dsimp only
    rw [hheldLegacy]

/-- and so does what is paid. -/
theorem takeAt_local {charter : Charter} (hc : ledger.charter = charter)
    (hc' : other.charter = charter)
    (hsame : ∀ cell, entry.Reach charter slot cell → other.cell cell = ledger.cell cell)
    (h : ledger.takeAt entry slot amount = .ok (value, taken)) :
    ∃ taken', other.takeAt entry slot amount = .ok (value, taken') ∧
      ∀ cell, entry.Reach charter slot cell → taken'.cell cell = taken.cell cell := by
  subst hc
  have hcurrent : other.deposits.get? slot = ledger.deposits.get? slot := hsame _ .current
  have hlegacy {epoch : Epoch}
      (hepoch : (entry.locate ledger.charter slot.mark).epoch? = some epoch) :
      other.legacyDeposits.get? ⟨slot.owner, slot.asset, epoch⟩ =
        ledger.legacyDeposits.get? ⟨slot.owner, slot.asset, epoch⟩ := hsame _ (.legacy hepoch)
  rw [takeAt_eq] at h ⊢
  obtain ⟨draw, hdraw, hpay⟩ := bind_eq_ok.mp h
  rw [draw_local hc' hsame, hdraw, ok_bind]
  cases draws_of_ok hdraw with
  | current hle =>
    obtain ⟨deposits, ht, rfl⟩ := takeCurrent_eq_ok.mp hpay
    obtain ⟨deposits', ht', hslot⟩ := SortedMap.take_local hcurrent ht
    refine ⟨_, takeCurrent_eq_ok.mpr ⟨deposits', ht', rfl⟩, fun cell hcell => ?_⟩
    cases hcell with
    | current => exact hslot
    | legacy hepoch => exact hlegacy hepoch
  | @legacy index epoch hl hzero hle =>
    have hepoch : (entry.locate ledger.charter slot.mark).epoch? = some epoch :=
      congrArg Location.epoch? hl
    obtain ⟨legacyDeposits, ht, rfl⟩ := takeLegacy_eq_ok.mp hpay
    obtain ⟨legacyDeposits', ht', hslot⟩ := SortedMap.take_local (hlegacy hepoch) ht
    refine ⟨_, takeLegacy_eq_ok.mpr ⟨legacyDeposits', ht', rfl⟩, fun cell hcell => ?_⟩
    cases hcell with
    | current => exact hcurrent
    | legacy hepoch' =>
      obtain rfl := Option.some.inj (hepoch.symm.trans hepoch')
      exact hslot
  | @both index epoch hl hlt hheld hg hle =>
    have hepoch : (entry.locate ledger.charter slot.mark).epoch? = some epoch :=
      congrArg Location.epoch? hl
    obtain ⟨deposits, legacyDeposits, fromCurrent, fromLegacy, hvalue, ht, htl, rfl⟩ :=
      takeBoth_eq_ok.mp hpay
    obtain ⟨deposits', ht', hslot⟩ := SortedMap.take_local hcurrent ht
    obtain ⟨legacyDeposits', htl', hslot'⟩ := SortedMap.take_local (hlegacy hepoch) htl
    rw [← quantityAt_local hcurrent] at ht' htl'
    refine ⟨_, takeBoth_eq_ok.mpr ⟨deposits', legacyDeposits', fromCurrent, fromLegacy, hvalue, ht',
      htl', rfl⟩, fun cell hcell => ?_⟩
    cases hcell with
    | current => exact hslot
    | legacy hepoch' =>
      obtain rfl := Option.some.inj (hepoch.symm.trans hepoch')
      exact hslot'

/-- What an index does not reach is not touched. -/
theorem untouched_of_takeAt {charter : Charter} {cell : Cell} (hc : ledger.charter = charter)
    (hne : amount ≠ 0) (h : ledger.takeAt entry slot amount = .ok (value, taken))
    (hcell : ¬ entry.Reach charter slot cell) : taken.cell cell = ledger.cell cell := by
  subst hc
  obtain ⟨_, _, -, hpay⟩ := storesPay_of_takeAt hne h
  cases cell with
  | current slot' => exact hpay.others slot' fun heq => hcell (heq ▸ .current)
  | legacy slot' =>
    exact hpay.legacyOthers slot' fun epoch hepoch heq => hcell (heq ▸ .legacy hepoch)

theorem epoch_of_takeAt (h : ledger.takeAt entry slot amount = .ok (value, taken)) :
    taken.epoch = ledger.epoch := by
  obtain ⟨_, _, hframe⟩ := (taken_of_takeAt h).frame
  rw [hframe]

/-- **Two slots are paid out in either order**, if no place is reached from both; it does not matter
which totals are entered in between. -/
theorem takeAt_swap {slot' : Slot Index} {amount' value' : Amount} {taken' : Ledger}
    {released : Asset} {id : AssetId} (hne : amount ≠ 0) (hne' : amount' ≠ 0)
    (hapart : ∀ cell, entry.Reach ledger.charter slot cell →
      ¬ entry.Reach ledger.charter slot' cell)
    (h : ledger.takeAt entry slot amount = .ok (value, taken))
    (h' : (taken.withAsset id released).takeAt entry slot' amount' = .ok (value', taken'))
    (released' : Asset) :
    ∃ taken₁ taken₂, ledger.takeAt entry slot' amount' = .ok (value', taken₁) ∧
      (taken₁.withAsset id released').takeAt entry slot amount = .ok (value, taken₂) ∧
      ∀ emptied, taken₂.withAsset id emptied = taken'.withAsset id emptied := by
  obtain ⟨deposits, legacyDeposits, hframe⟩ := (taken_of_takeAt h).frame
  have hc : (taken.withAsset id released).charter = ledger.charter := by
    rw [hframe]
    rfl
  have huntouched {cell : Cell} := @untouched_of_takeAt _ _ _ _ _ _ _ cell rfl hne h
  have huntouched' {cell : Cell} := @untouched_of_takeAt _ _ _ _ _ _ _ cell hc hne' h'
  rw [cell_withAsset] at huntouched'
  -- The second does not need the first: nothing that it reaches has changed.
  obtain ⟨taken₁, h₁, hreached₁⟩ := takeAt_local hc rfl (fun cell hcell => by
    rw [cell_withAsset]
    exact (huntouched fun hcell' => hapart cell hcell' hcell).symm) h'
  obtain ⟨deposits₁, legacyDeposits₁, hframe₁⟩ := (taken_of_takeAt h₁).frame
  have hc₁ : (taken₁.withAsset id released').charter = ledger.charter := by
    rw [hframe₁]
    rfl
  have huntouched₁ {cell : Cell} := @untouched_of_takeAt _ _ _ _ _ _ _ cell rfl hne' h₁
  -- Nor does it take anything from the first.
  obtain ⟨taken₂, h₂, hreached₂⟩ := takeAt_local rfl hc₁ (fun cell hcell => by
    rw [cell_withAsset]
    exact huntouched₁ (hapart cell hcell)) h
  have huntouched₂ {cell : Cell} := @untouched_of_takeAt _ _ _ _ _ _ _ cell hc₁ hne h₂
  rw [cell_withAsset] at huntouched₂
  refine ⟨taken₁, taken₂, h₁, h₂, fun emptied => eq_of_cells ?_ ?_⟩
  · rw [cell_withAsset, cell_withAsset]
    funext cell
    by_cases hcell : entry.Reach ledger.charter slot cell
    · rw [hreached₂ cell hcell, huntouched' (hapart cell hcell)]
    by_cases hcell' : entry.Reach ledger.charter slot' cell
    · rw [huntouched₂ hcell, hreached₁ cell hcell']
    · rw [huntouched₂ hcell, huntouched₁ hcell', huntouched' hcell', huntouched hcell]
  · obtain ⟨_, _, hframe'⟩ := (taken_of_takeAt h').frame
    obtain ⟨_, _, hframe₂⟩ := (taken_of_takeAt h₂).frame
    rw [hframe₂, hframe₁, hframe', hframe]
    simp only [withAsset, SortedMap.insert_insert]

end Ledger

/-! ### Two removals -/

/-- Totals do not matter for what is taken. -/
theorem Ledger.takeAt_of_release {entry entry' : Asset} {position : Position}
    (h : entry.release position = .ok entry') (ledger : Ledger) :
    ledger.takeAt entry' = ledger.takeAt entry := by
  obtain ⟨_, _, -, -, rfl⟩ := Asset.release_eq_ok.mp h
  rfl

/-- Totals release two positions in either order. -/
theorem Asset.release_swap {entry between entry' : Asset} {position position' : Position}
    (h : entry.release position = .ok between) (h' : between.release position' = .ok entry') :
    ∃ between', entry.release position' = .ok between' ∧
      between'.release position = .ok entry' := by
  obtain ⟨quantity, value, hquantity, hvalue, rfl⟩ := release_eq_ok.mp h
  obtain ⟨quantity', value', hquantity', hvalue', rfl⟩ := release_eq_ok.mp h'
  dsimp only at hquantity' hvalue'
  refine ⟨{ entry with
      totalQuantity := entry.totalQuantity.monus position'.quantity
      totalValue := entry.totalValue.monus position'.value },
    release_eq_ok.mpr ⟨_, _, ?_, ?_, rfl⟩, release_eq_ok.mpr ⟨quantity', value', ?_, ?_, rfl⟩⟩
  all_goals
    simp only [Unsigned.toNat_monus]
    omega

variable {ledger ledger' : Ledger} {owner : AccountId} {asset : AssetId}

theorem requireCurrent_of_removePosition {slot : Slot Index} {amount : Amount}
    {out : Outcome Amount} (h : removePosition slot amount ledger = .ok out) :
    ledger.requireCurrent slot.owner slot.asset = .ok () := (ensureCurrent_bind.mp h).1

/-- **Two removals change places**, if they are at different indices. -/
theorem removePosition_swap {index index' : Index} {amount amount' : Amount}
    {first second : Outcome Amount} (hne : index ≠ index')
    (h : removePosition ⟨owner, asset, index⟩ amount ledger = .ok first)
    (h' : removePosition ⟨owner, asset, index'⟩ amount' first.ledger = .ok second) :
    ∃ between,
      removePosition ⟨owner, asset, index'⟩ amount' ledger =
          .ok ⟨second.result, between, second.events⟩ ∧
        removePosition ⟨owner, asset, index⟩ amount between =
          .ok ⟨first.result, second.ledger, first.events⟩ := by
  have hcurrent := requireCurrent_of_removePosition h
  by_cases hzero : amount = 0
  · subst hzero
    obtain ⟨-, rfl⟩ := removePosition_zero_eq_ok.mp h
    have hkept := (removePosition_moves h').2.keeps.current (Ledger.requireCurrent_eq_ok.mp hcurrent)
    exact ⟨second.ledger, h', removePosition_zero_eq_ok.mpr
      ⟨Ledger.requireCurrent_eq_ok.mpr hkept, rfl⟩⟩
  by_cases hzero' : amount' = 0
  · subst hzero'
    obtain ⟨-, rfl⟩ := removePosition_zero_eq_ok.mp h'
    exact ⟨ledger, removePosition_zero_eq_ok.mpr ⟨hcurrent, rfl⟩, h⟩
  obtain ⟨value, taken, entry, released, -, hentry, htake, hrelease, rfl⟩ :=
    (removePosition_eq_ok hzero).mp h
  obtain ⟨value', taken', listed, released', hcurrent', hlisted, htake', hrelease', rfl⟩ :=
    (removePosition_eq_ok hzero').mp h'
  obtain rfl : listed = released :=
    Option.some.inj ((Ledger.asset_eq_ok.mp hlisted).symm.trans (SortedMap.get?_insert_self ..))
  rw [Ledger.takeAt_of_release hrelease] at htake'
  obtain ⟨between, hreleased', hreleased⟩ := Asset.release_swap hrelease hrelease'
  obtain ⟨taken₁, taken₂, htake₁, htake₂, hsame⟩ := Ledger.takeAt_swap hzero hzero'
    (fun cell hcell hcell' => hne (hcell.index_eq hentry hcell')) htake htake' between
  rw [← Ledger.takeAt_of_release hreleased'] at htake₂
  have hepoch : (taken.withAsset asset listed).epoch = ledger.epoch := by
    rw [← Ledger.epoch_of_takeAt htake]
    rfl
  have hepoch₁ : (taken₁.withAsset asset between).epoch = ledger.epoch := by
    rw [← Ledger.epoch_of_takeAt htake₁]
    rfl
  have hsecond : removePosition ⟨owner, asset, index'⟩ amount' ledger = .ok ⟨value', _, _⟩ :=
    (removePosition_eq_ok hzero').mpr
      ⟨value', taken₁, entry, between, hcurrent, hentry, htake₁, hreleased', rfl⟩
  have hkept := (removePosition_moves hsecond).2.keeps.current
    (Ledger.requireCurrent_eq_ok.mp hcurrent)
  have hfirst : removePosition ⟨owner, asset, index⟩ amount (taken₁.withAsset asset between) =
      .ok ⟨value, _, _⟩ :=
    (removePosition_eq_ok hzero).mpr ⟨value, taken₂, between, released',
      Ledger.requireCurrent_eq_ok.mpr hkept,
      Ledger.asset_eq_ok.mpr (SortedMap.get?_insert_self ..), htake₂, hreleased, rfl⟩
  refine ⟨taken₁.withAsset asset between, ?_, ?_⟩
  · rw [hsecond, Ledger.epoch_of_takeAt htake₁, Ledger.epoch_of_takeAt htake', hepoch]
  · rw [hfirst, hsame, Ledger.epoch_of_takeAt htake₂, Ledger.epoch_of_takeAt htake, hepoch₁]

/-! ### Parcels leave in any order -/

/-- **Parcels leave in any order**: the induction is on the exchanges of neighbours that lead from
one order to the other. -/
theorem Departs.perm {parcels parcels' : List Parcel} {events : Event.Log}
    (hperm : parcels.Perm parcels') (hdistinct : (parcels.map Prod.fst).Nodup)
    (h : Departs owner asset ledger parcels events ledger') :
    ∃ events', Departs owner asset ledger parcels' events' ledger' ∧
      events.events.Perm events'.events := by
  induction hperm generalizing ledger events with
  | nil => exact ⟨events, h, .refl _⟩
  | cons parcel _ ih =>
    cases h with
    | cons first rest =>
      obtain ⟨events', hrest, hevents⟩ := ih (List.nodup_cons.mp hdistinct).2 rest
      exact ⟨_, .cons first hrest, hevents.append_left _⟩
  | swap parcel parcel' parcels =>
    cases h with
    | cons first rest =>
      cases rest with
      | cons second rest =>
        have hne := List.ne_of_not_mem_cons (List.nodup_cons.mp hdistinct).1
        obtain ⟨between, hsecond, hfirst⟩ := removePosition_swap hne first second
        have hswapped := Departs.cons hsecond (.cons hfirst rest)
        exact ⟨_, hswapped, List.perm_append_comm_assoc _ _ _⟩
  | trans hperm _ ih ih' =>
    obtain ⟨_, hbetween, hevents⟩ := ih hdistinct h
    obtain ⟨events', hlast, hevents'⟩ :=
      ih' ((hperm.map Prod.fst).nodup_iff.mp hdistinct) hbetween
    exact ⟨events', hlast, hevents.trans hevents'⟩

/-! ### Sums -/

/-- One value after the other: each adds what it has grown, and no value has grown nothing. -/
theorem grownOf_cons_eq_ok {tip index : Index} {value grown total : Amount}
    {entries : List (Index × Amount)} :
    grownOf tip ((index, value) :: entries) grown = .ok total ↔ ∃ more sum,
      (value = 0 ∧ more = 0 ∨ value ≠ 0 ∧ grownReward tip index value = .ok more) ∧
        grown.add more = .ok sum ∧ grownOf tip entries sum = .ok total := by
  rw [grownOf]
  split
  next hzero =>
    constructor
    · exact fun h => ⟨0, grown, .inl ⟨hzero, rfl⟩, Unsigned.add_eq_ok.mpr rfl, h⟩
    · rintro ⟨more, sum, ⟨-, rfl⟩ | ⟨hne, -⟩, hsum, h⟩
      · obtain rfl : sum = grown := Unsigned.ext (Unsigned.add_eq_ok.mp hsum)
        exact h
      · exact absurd hzero hne
  next hne =>
    simp only [bind_eq_ok]
    constructor
    · rintro ⟨more, hmore, sum, hsum, h⟩
      exact ⟨more, sum, .inr ⟨hne, hmore⟩, hsum, h⟩
    · rintro ⟨more, sum, ⟨hzero, -⟩ | ⟨-, hmore⟩, hsum, h⟩
      · exact absurd hzero hne
      · exact ⟨more, hmore, sum, hsum, h⟩

/-- What some values have grown is summed up in any order. -/
theorem grownOf_perm {tip : Index} {entries entries' : List (Index × Amount)} {grown total : Amount}
    (hperm : entries.Perm entries') (h : grownOf tip entries grown = .ok total) :
    grownOf tip entries' grown = .ok total := by
  induction hperm generalizing grown with
  | nil => exact h
  | cons entry _ ih =>
    obtain ⟨more, sum, hmore, hsum, hrest⟩ := grownOf_cons_eq_ok.mp h
    exact grownOf_cons_eq_ok.mpr ⟨more, sum, hmore, hsum, ih hrest⟩
  | swap entry entry' entries =>
    obtain ⟨more, sum, hmore, hsum, h⟩ := grownOf_cons_eq_ok.mp h
    obtain ⟨more', sum', hmore', hsum', h⟩ := grownOf_cons_eq_ok.mp h
    rw [Unsigned.add_eq_ok] at hsum hsum'
    obtain ⟨between, hbetween⟩ : ∃ between, grown.add more' = .ok between :=
      @Unsigned.add_succeeds _ _ sum' (by omega)
    refine grownOf_cons_eq_ok.mpr ⟨more', between, hmore', hbetween,
      grownOf_cons_eq_ok.mpr ⟨more, sum', hmore, ?_, h⟩⟩
    rw [Unsigned.add_eq_ok] at hbetween ⊢
    omega
  | trans _ _ ih ih' => exact ih' (ih h)

/-! ### Withdrawals -/

variable {entries entries' : List (Index × Amount)}

/-- Two removals that came to the same, with the entries in one order or another. -/
structure Removal.Rearranged (entries entries' : List (Index × Amount))
    (removed removed' : Outcome Removal) : Prop where
  ledger : removed'.ledger = removed.ledger
  totalQuantity : removed'.result.totalQuantity = removed.result.totalQuantity
  totalValue : removed'.result.totalValue = removed.result.totalValue
  /-- The same value was removed for each entry. -/
  values : (entries.zip removed.result.values).Perm (entries'.zip removed'.result.values)
  /-- The same events were recorded. -/
  events : removed.events.events.Perm removed'.events.events

/-- Parcels can be put in the order in which they are asked for. -/
theorem Parcel.exists_perm {parcels : List Parcel} (hasked : parcels.map Parcel.asked = entries)
    (hperm : entries.Perm entries') :
    ∃ parcels' : List Parcel, parcels'.map Parcel.asked = entries' ∧ parcels.Perm parcels' := by
  have hpaired : List.Forall₂ (fun entry parcel => entry = Parcel.asked parcel) entries parcels := by
    rw [← hasked]
    exact List.forall₂_map_left_iff.mpr (List.forall₂_same.mpr fun _ _ => rfl)
  obtain ⟨parcels', hpaired', hparcels⟩ := List.perm_comp_forall₂ hperm.symm hpaired
  rw [← List.forall₂_map_right_iff, List.forall₂_eq_eq_eq] at hpaired'
  exact ⟨parcels', hpaired'.symm, hparcels.symm⟩

/-- **Positions are removed in any order.** -/
theorem removeMultiple_perm {removed : Outcome Removal} (hperm : entries.Perm entries')
    (hdistinct : (entries.map Prod.fst).Nodup)
    (h : removeMultiple owner asset (entries.map Prod.fst) (entries.map Prod.snd) ledger =
      .ok removed) :
    ∃ removed', removeMultiple owner asset (entries'.map Prod.fst) (entries'.map Prod.snd) ledger =
        .ok removed' ∧ Removal.Rearranged entries entries' removed removed' := by
  obtain ⟨_, hcheck, hremove⟩ := lift_bind.mp h
  have hcheck' : checkLengths (entries'.map Prod.fst) (entries'.map Prod.snd) = .ok () := by
    rw [← hcheck]
    simp only [checkLengths, List.length_map, hperm.length_eq]
  rw [← List.zip_of_prod rfl rfl] at hremove
  obtain ⟨parcels, hasked, hdeparts, hvalues, hcontents⟩ := removeEach_eq_ok.mp hremove
  obtain ⟨parcels', hasked', hparcels⟩ := Parcel.exists_perm hasked hperm
  have hapart : (parcels.map Prod.fst).Nodup := by
    rwa [← hasked, List.map_map] at hdistinct
  obtain ⟨events', hdeparts', hevents⟩ := hdeparts.perm hparcels hapart
  have htotal : Parcel.total parcels' = Parcel.total parcels :=
    ((hparcels.map Parcel.contents).sum_eq).symm
  refine ⟨⟨{ removed.result with values := parcels'.map (·.2.2) }, removed.ledger, events'⟩,
    lift_bind.mpr ⟨(), hcheck', ?_⟩, rfl, rfl, rfl, ?_, hevents⟩
  · rw [← List.zip_of_prod rfl rfl]
    refine removeEach_eq_ok.mpr ⟨parcels', hasked', hdeparts', rfl, ?_⟩
    rw [htotal]
    exact hcontents
  · rw [hvalues, ← hasked, ← hasked']
    show ((parcels.map Parcel.asked).zip (parcels.map (·.2.2))).Perm
      ((parcels'.map Parcel.asked).zip (parcels'.map (·.2.2)))
    rw [List.zip_map', List.zip_map']
    exact hparcels.map _

/-- The positions carry the same stalk. -/
theorem Removal.Rearranged.stalkOf {removed removed' : Outcome Removal} {entry : Asset}
    {carried : CarriedStalk} (hr : Removal.Rearranged entries entries' removed removed')
    (h : entry.stalkOf (entries.map Prod.fst) removed.result = .ok carried) :
    entry.stalkOf (entries'.map Prod.fst) removed'.result = .ok carried := by
  have hzip : ((entries.map Prod.fst).zip removed.result.values).Perm
      ((entries'.map Prod.fst).zip removed'.result.values) := by
    rw [List.zip_map_left, List.zip_map_left]
    exact hr.values.map _
  unfold Asset.stalkOf at h ⊢
  obtain ⟨grown, hgrown, hrest⟩ := bind_eq_ok.mp h
  rw [hr.totalValue]
  exact bind_eq_ok.mpr ⟨grown, grownOf_perm hzip hgrown, hrest⟩

/-- **A withdrawal comes to the same in any order.** -/
theorem withdraw_perm {out : Outcome WithdrawReceipt} (hperm : entries.Perm entries')
    (hdistinct : (entries.map Prod.fst).Nodup)
    (h : withdraw owner asset (entries.map Prod.fst) (entries.map Prod.snd) ledger = .ok out) :
    ∃ mown removed removed' out', mow owner asset ledger = .ok mown ∧
      removeMultiple owner asset (entries.map Prod.fst) (entries.map Prod.snd) mown.ledger =
        .ok removed ∧
      removeMultiple owner asset (entries'.map Prod.fst) (entries'.map Prod.snd) mown.ledger =
        .ok removed' ∧
      Removal.Rearranged entries entries' removed removed' ∧
      withdraw owner asset (entries'.map Prod.fst) (entries'.map Prod.snd) ledger = .ok out' ∧
      out'.result = out.result ∧ out'.ledger = out.ledger ∧
      out.events.events.Perm out'.events.events := by
  obtain ⟨mown, removed, entry, carried, debited, burned, hmow, hremove, hentry, hcarried, hdebit,
    hburn, rfl⟩ := withdraw_stages h
  obtain ⟨removed', hremove', hr⟩ := removeMultiple_perm hperm hdistinct hremove
  have hcarried' := hr.stalkOf hcarried
  have hentry' := hentry
  have hdebit' := hdebit
  rw [← hr.ledger] at hentry' hdebit'
  rw [← hr.totalValue] at hdebit'
  refine ⟨mown, removed, removed', _, hmow, hremove, hremove', hr,
    withdraw_of_stages hmow hremove' hentry' hcarried' hdebit' hburn, ?_, rfl, ?_⟩
  · rw [hr.totalQuantity, hr.totalValue]
  · exact (hr.events.append_right _).append_left _

namespace Vault

variable {vault : Vault}

/-- Two answers that are the same, from vaults that are the same, but for the order of what was
recorded. -/
structure SameButOrder (served served' : Reply × Vault) : Prop where
  result : served'.1.result = served.1.result
  payout : served'.1.payout = served.1.payout
  gained : served.1.gained.events.Perm served'.1.gained.events
  log : ∃ log, served.2.log = log ++ served.1.gained ∧ served'.2.log = log ++ served'.1.gained
  vault : served'.2 = { served.2 with log := served'.2.log }

/-- Actions that come to the same are followed by the same. -/
theorem sameButOrder_of_paying {α : Type} {action action' : Action α} {out out' : Outcome α}
    (answer : α → Answer) (due : α → Payment) (carrier : Carrier Transcript)
    (hentered : vault.entered = false) (h : action vault.ledger = .ok out)
    (h' : action' vault.ledger = .ok out') (hresult : out'.result = out.result)
    (hledger : out'.ledger = out.ledger) (hevents : out.events.events.Perm out'.events.events) :
    SameButOrder (Reply.ofPaying answer (vault.transactPaying action due carrier))
      (Reply.ofPaying answer (vault.transactPaying action' due carrier)) := by
  obtain ⟨_, _, events⟩ := out
  obtain ⟨result, ledger, events'⟩ := out'
  obtain rfl : result = _ := hresult
  obtain rfl : ledger = _ := hledger
  have hopen : ¬ vault.entered = true := by
    rw [hentered]
    exact Bool.false_ne_true
  rw [transactPaying, transactPaying, transactThen, transactThen, if_neg hopen, if_neg hopen, h, h']
  dsimp only
  -- What follows sees the same vault, since nothing has been recorded yet.
  rcases pay carrier (due result) { vault with ledger, entered := true } with ⟨_ | payout, after⟩
  · exact ⟨rfl, rfl, hevents, ⟨after.log, rfl, rfl⟩, rfl⟩
  dsimp only
  split
  · exact ⟨rfl, rfl, hevents, ⟨after.log, rfl, rfl⟩, rfl⟩
  · have hnothing := (Event.Log.append_empty after.log).symm
    exact ⟨rfl, rfl, .refl _, ⟨after.log, hnothing, hnothing⟩, rfl⟩

/-- The call for a withdrawal of some quantities, each at its index. -/
def withdrawing (owner : AccountId) (asset : AssetId) (accepts : Bool) (inner : List Call)
    (entries : List (Index × Amount)) : Call :=
  .withdraw owner asset (entries.map Prod.fst) (entries.map Prod.snd) accepts inner

/-- A withdrawal that is answered comes to the same in any order. -/
theorem withdrawing_perm {accepts : Bool} {inner : List Call} {receipt : WithdrawReceipt}
    (hentered : vault.entered = false) (hperm : entries.Perm entries')
    (hdistinct : (entries.map Prod.fst).Nodup)
    (h : (serve (withdrawing owner asset accepts inner entries) vault).1.result =
      .ok (.withdrawn receipt)) :
    SameButOrder (serve (withdrawing owner asset accepts inner entries) vault)
        (serve (withdrawing owner asset accepts inner entries') vault) ∧
      ∃ mown removed removed', mow owner asset vault.ledger = .ok mown ∧
        removeMultiple owner asset (entries.map Prod.fst) (entries.map Prod.snd) mown.ledger =
          .ok removed ∧
        removeMultiple owner asset (entries'.map Prod.fst) (entries'.map Prod.snd) mown.ledger =
          .ok removed' ∧
        Removal.Rearranged entries entries' removed removed' := by
  unfold withdrawing at h ⊢
  rw [serve_withdraw] at h ⊢
  rw [serve_withdraw]
  obtain ⟨out, hout, -, -⟩ := (withdraw_changed hentered).answered h
  obtain ⟨mown, removed, removed', out', hmow, hremove, hremove', hr, hout', hresult, hledger,
    hevents⟩ := withdraw_perm hperm hdistinct hout
  exact ⟨sameButOrder_of_paying _ _ _ hentered hout hout' hresult hledger hevents,
    mown, removed, removed', hmow, hremove, hremove', hr⟩

/-- **Rearrangement.**  After any requests to a new vault, take a withdrawal from different indices,
and put its entries in another order.  It is answered with a receipt in one order if and only if it
is answered with that receipt in the other.  Then the same is paid out, the same value is removed for
each entry, and the vaults are the same, but for the order of what was recorded of the withdrawal. -/
theorem withdrawals_rearranged {charter : Charter} {start : Vault} (h : genesis charter = .ok start)
    (requests : List Request) (owner : AccountId) (asset : AssetId)
    {entries entries' : List (Index × Amount)} (hdistinct : (entries.map Prod.fst).Nodup)
    (hperm : entries.Perm entries') (accepts : Bool) (inner : List Call)
    (receipt : WithdrawReceipt) :
    let vault := (run requests start).2
    let served := serve (withdrawing owner asset accepts inner entries) vault
    let served' := serve (withdrawing owner asset accepts inner entries') vault
    (served.1.result = .ok (.withdrawn receipt) ↔ served'.1.result = .ok (.withdrawn receipt)) ∧
    (served.1.result = .ok (.withdrawn receipt) →
      SameButOrder served served' ∧ ∃ mown removed removed',
        mow owner asset vault.ledger = .ok mown ∧
        removeMultiple owner asset (entries.map Prod.fst) (entries.map Prod.snd) mown.ledger =
          .ok removed ∧
        removeMultiple owner asset (entries'.map Prod.fst) (entries'.map Prod.snd) mown.ledger =
          .ok removed' ∧
        (entries.zip removed.result.values).Perm (entries'.zip removed'.result.values)) := by
  intro vault served served'
  obtain ⟨-, hentered⟩ := orderly h requests
  have hdistinct' : (entries'.map Prod.fst).Nodup := (hperm.map Prod.fst).nodup_iff.mp hdistinct
  refine ⟨⟨fun hanswer => ?_, fun hanswer => ?_⟩, fun hanswer => ?_⟩
  · exact (withdrawing_perm hentered hperm hdistinct hanswer).1.result.trans hanswer
  · exact (withdrawing_perm hentered hperm.symm hdistinct' hanswer).1.result.trans hanswer
  · obtain ⟨hsame, mown, removed, removed', hmow, hremove, hremove', hr⟩ :=
      withdrawing_perm hentered hperm hdistinct hanswer
    exact ⟨hsame, mown, removed, removed', hmow, hremove, hremove', hr.values⟩

/-- What account 7 withdraws: 18 at index -8, which both stores have to pay, 3 at index 0, and
nothing at index 4. -/
def splitEntries : List (Index × Amount) := [(.ofInt (-8), 18), (0, 3), (4, 0)]

theorem withdrawals_rearranged_split : genesis ⟨10, 10, 0, 9⟩ = .ok sample ∧
    (splitEntries.map Prod.fst).Nodup ∧ splitEntries.Perm splitEntries.reverse ∧
    let vault := (run splitRequests sample).2
    let served := serve (withdrawing 7 1 true [] splitEntries) vault
    let served' := serve (withdrawing 7 1 true [] splitEntries.reverse) vault
    served.1.result = .ok (.withdrawn ⟨1, 21, 27, 270435, 270435000000000000⟩) ∧
    served'.1.result = .ok (.withdrawn ⟨1, 21, 27, 270435, 270435000000000000⟩) ∧
    SameButOrder served served' ∧ ∃ mown removed removed',
      mow 7 1 vault.ledger = .ok mown ∧
      removeMultiple 7 1 (splitEntries.map Prod.fst) (splitEntries.map Prod.snd) mown.ledger =
        .ok removed ∧
      removeMultiple 7 1 (splitEntries.reverse.map Prod.fst) (splitEntries.reverse.map Prod.snd)
        mown.ledger = .ok removed' ∧
      (splitEntries.zip removed.result.values).Perm
        (splitEntries.reverse.zip removed'.result.values) := by
  have hdistinct : (splitEntries.map Prod.fst).Nodup := by decide
  have hperm : splitEntries.Perm splitEntries.reverse := splitEntries.reverse_perm.symm
  have hanswer : (serve (withdrawing 7 1 true [] splitEntries)
      (run splitRequests sample).2).1.result =
        .ok (.withdrawn ⟨1, 21, 27, 270435, 270435000000000000⟩) := by decide +kernel
  have hboth := withdrawals_rearranged genesis_sample splitRequests 7 1 hdistinct hperm true []
    ⟨1, 21, 27, 270435, 270435000000000000⟩
  exact ⟨genesis_sample, hdistinct, hperm, hanswer, hboth.1.mp hanswer, hboth.2 hanswer⟩

end Vault

end StalkLedger
