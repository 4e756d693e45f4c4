import Mathlib.Data.List.Forall2
import Mathlib.Data.List.Nodup
import StalkLedger.Proofs.Absorption
import StalkLedger.Proofs.Location

/-!
# Migration moves entries between the stores

A migration takes the position under a legacy epoch and puts it into the current store, at the index
that the epoch stands for, together with what is there.  An epoch under which there is nothing, or
nothing any more, is passed over.

* **One epoch** (`migrateEpoch_migrates`): the slot of the index gets what the slot of the epoch
  loses.  Looking the index up leads back to the epoch, and no other index leads there.
* **Some epochs** (`migrateEach_migrates`): what the first have done, the others find done.  So the
  indices of a longer list are those of a shorter one, followed by those of the epochs that are new
  and still held something (`Ledger.Migrates.trans`).

All of that together (`Ledger.Migrates`) is what a migration does to a ledger in which the account
has been mown (`Vault.migration_moves_entries`).
-/

namespace StalkLedger

open StalkLedger.Action
open Position (contents)

namespace Ledger

variable {ledger ledger' ledger'' : Ledger} {owner : AccountId} {asset : AssetId}
  {terms : LegacyTerms} {epoch : Epoch} {index : Index} {epochs epochs' : List Epoch}
  {indices indices' : List Index}

/-! ### The epoch of an index -/

/-- The index that a legacy epoch stands for is looked up under that epoch. -/
theorem epochAt_indexOf (hterms : ledger.legacyTerms asset = .ok terms)
    (hrate : 0 < terms.ratePerEpoch.toInt) (hlegacy : ledger.charter.isLegacy epoch = true)
    (hindex : terms.indexOf ledger.charter epoch = .ok index) :
    ledger.epochAt asset index = some epoch := by
  obtain ⟨entry, hentry, hl⟩ := legacyTerms_eq_ok.mp hterms
  rw [epochAt_eq hentry, Asset.locate_indexOf hl hrate hlegacy hindex]
  rfl

/-- Whether there is a position under a legacy epoch. -/
def holdsLegacy (ledger : Ledger) (owner : AccountId) (asset : AssetId) (epoch : Epoch) : Bool :=
  (ledger.legacyPosition owner asset epoch).isSome

/-! ### Migrations -/

/-- The positions of an account in an asset under some legacy epochs have moved to the indices that
the epochs stand for. -/
structure Migrates (owner : AccountId) (asset : AssetId) (terms : LegacyTerms)
    (epochs : List Epoch) (indices : List Index) (ledger ledger' : Ledger) : Prop where
  /-- What the account holds at an index in both stores together is the same. -/
  held : ∀ index, ledger'.heldAt ⟨owner, asset, index⟩ = ledger.heldAt ⟨owner, asset, index⟩
  /-- The legacy store holds nothing under the epochs any more, -/
  cleared : ∀ epoch ∈ epochs, ledger'.legacyPosition owner asset epoch = none
  /-- and is the same elsewhere; -/
  kept : ∀ slot : Slot Epoch, (∀ epoch ∈ epochs, slot ≠ ⟨owner, asset, epoch⟩) →
    ledger'.legacyDeposits.get? slot = ledger.legacyDeposits.get? slot
  /-- so is the current store, apart from the indices. -/
  elsewhere : ∀ slot : Slot Index, (∀ index ∈ indices, slot ≠ ⟨owner, asset, index⟩) →
    ledger'.deposits.get? slot = ledger.deposits.get? slot
  /-- The indices are those of the epochs that held a position, in the order in which these come
  first, -/
  sequence : List.Forall₂ (fun epoch index => terms.indexOf ledger.charter epoch = .ok index)
    (epochs.filter (ledger.holdsLegacy owner asset)).eraseDups indices
  /-- each once. -/
  distinct : indices.Nodup
  /-- Nothing else has changed. -/
  rest : ledger' = { ledger with
    deposits := ledger'.deposits, legacyDeposits := ledger'.legacyDeposits }

namespace Migrates

/-- Where there is nothing to move, nothing moves. -/
theorem refl (hnone : ∀ epoch ∈ epochs, ledger.legacyPosition owner asset epoch = none) :
    Migrates owner asset terms epochs [] ledger ledger where
  held _ := rfl
  cleared := hnone
  kept _ _ := rfl
  elsewhere _ _ := rfl
  sequence := by
    have hempty : epochs.filter (ledger.holdsLegacy owner asset) = [] := by
      refine List.filter_eq_nil_iff.mpr fun epoch hepoch => ?_
      rw [holdsLegacy, hnone epoch hepoch]
      exact Bool.false_ne_true
    rw [hempty, List.eraseDups_nil]
    exact .nil
  distinct := List.nodup_nil
  rest := rfl

/-- After a migration there is something under the epochs that were left. -/
theorem holdsLegacy_eq (h : Migrates owner asset terms epochs indices ledger ledger')
    (epoch : Epoch) : ledger'.holdsLegacy owner asset epoch =
      (!epochs.elem epoch && ledger.holdsLegacy owner asset epoch) := by
  by_cases hmem : epoch ∈ epochs
  · rw [holdsLegacy, h.cleared epoch hmem, List.elem_eq_true_of_mem hmem]
    rfl
  · have hsame : ledger'.legacyPosition owner asset epoch =
        ledger.legacyPosition owner asset epoch := by
      refine h.kept _ fun other hother heq => hmem ?_
      rw [show epoch = other from congrArg Slot.mark heq]
      exact hother
    rw [holdsLegacy, hsame, List.elem_eq_mem, decide_eq_false hmem, holdsLegacy]
    rfl

/-- An index is that of an epoch that held a position. -/
theorem epoch_of_mem (h : Migrates owner asset terms epochs indices ledger ledger')
    (hindex : index ∈ indices) : ∃ epoch ∈ epochs, ledger.holdsLegacy owner asset epoch = true ∧
      terms.indexOf ledger.charter epoch = .ok index := by
  obtain ⟨n, hn, rfl⟩ := List.mem_iff_getElem.mp hindex
  have hlength := h.sequence.length_eq
  have hmem := List.getElem_mem (hlength.symm ▸ hn)
  obtain ⟨hepoch, hheld⟩ := List.mem_filter.mp (List.mem_eraseDups.mp hmem)
  exact ⟨_, hepoch, hheld, h.sequence.get (hlength.symm ▸ hn) hn⟩

/-- **One migration after another.** -/
theorem trans (hrate : 0 < terms.ratePerEpoch.toInt)
    (h : Migrates owner asset terms epochs indices ledger ledger')
    (h' : Migrates owner asset terms epochs' indices' ledger' ledger'') :
    Migrates owner asset terms (epochs ++ epochs') (indices ++ indices') ledger ledger'' where
  held index := (h'.held index).trans (h.held index)
  cleared epoch hepoch := by
    by_cases hmem : epoch ∈ epochs'
    · exact h'.cleared epoch hmem
    · refine (h'.kept _ fun other hother heq => hmem ?_).trans
        (h.cleared epoch ((List.mem_append.mp hepoch).resolve_right hmem))
      rw [show epoch = other from congrArg Slot.mark heq]
      exact hother
  kept slot hslot := by
    obtain ⟨hfirst, hlast⟩ := List.forall_mem_append.mp hslot
    exact (h'.kept slot hlast).trans (h.kept slot hfirst)
  elsewhere slot hslot := by
    obtain ⟨hfirst, hlast⟩ := List.forall_mem_append.mp hslot
    exact (h'.elsewhere slot hlast).trans (h.elsewhere slot hfirst)
  sequence := by
    have hcharter : ledger'.charter = ledger.charter := by rw [h.rest]
    -- The later epochs that count are those that are new and held something at first.
    have hnew : (epochs'.filter (ledger.holdsLegacy owner asset)).removeAll
        (epochs.filter (ledger.holdsLegacy owner asset)) =
          epochs'.filter (ledger'.holdsLegacy owner asset) := by
      rw [List.removeAll, List.filter_filter]
      refine List.filter_congr fun epoch _ => ?_
      rw [h.holdsLegacy_eq]
      cases hheld : ledger.holdsLegacy owner asset epoch with
      | false => rw [Bool.and_false, Bool.and_false]
      | true =>
        rw [List.elem_eq_mem, List.elem_eq_mem]
        simp only [List.mem_filter, hheld, and_true]
    rw [List.filter_append, List.eraseDups_append, hnew]
    exact List.rel_append h.sequence (hcharter ▸ h'.sequence)
  distinct := by
    have hcharter : ledger'.charter = ledger.charter := by rw [h.rest]
    refine List.nodup_append.mpr ⟨h.distinct, h'.distinct, fun index hmem other hmem' heq => ?_⟩
    -- A common index would be that of one epoch, which held nothing after the first migration.
    obtain ⟨epoch, hepoch, -, hindex⟩ := h.epoch_of_mem hmem
    obtain ⟨epoch', -, hheld, hindex'⟩ := h'.epoch_of_mem hmem'
    rw [hcharter, ← heq] at hindex'
    obtain rfl := LegacyTerms.indexOf_injective hrate hindex hindex'
    rw [h.holdsLegacy_eq, List.elem_eq_true_of_mem hepoch] at hheld
    exact Bool.false_ne_true hheld
  rest := by rw [h'.rest, h.rest]

end Migrates

end Ledger

open Ledger (Migrates)

variable {ledger : Ledger} {owner : AccountId} {asset : AssetId} {terms : LegacyTerms}

/-- **One epoch**: what is under it goes to its index. -/
theorem migrateEpoch_migrates {epoch : Epoch} {out : Outcome (Option Index)}
    (hterms : ledger.legacyTerms asset = .ok terms) (hrate : 0 < terms.ratePerEpoch.toInt)
    (h : migrateEpoch owner asset terms epoch ledger = .ok out) :
    Migrates owner asset terms [epoch] out.result.toList ledger out.ledger := by
  obtain ⟨hlegacy, ⟨hget, rfl⟩ | ⟨position, index, deposits, hget, hindex, hput, rfl⟩⟩ :=
    migrateEpoch_stages h
  · exact .refl (List.forall_mem_singleton.mpr hget)
  have hepoch := Ledger.epochAt_indexOf hterms hrate hlegacy hindex
  refine ⟨fun index' => ?_, ?_, fun slot hslot => ?_, fun slot hslot => ?_, ?_,
    List.nodup_singleton _, rfl⟩
  · by_cases heq : index' = index
    · subst heq
      have hbefore : ledger.legacyAt ⟨owner, asset, index'⟩ = some position := by
        rw [Ledger.legacyAt, hepoch]
        exact hget
      have hafter : Ledger.legacyAt { ledger with
          deposits
          legacyDeposits := ledger.legacyDeposits.erase ⟨owner, asset, epoch⟩ }
            ⟨owner, asset, index'⟩ = none := by
        show (ledger.epochAt asset index').bind _ = none
        rw [hepoch]
        exact SortedMap.get?_erase_self _ _
      rw [Ledger.heldAt, Ledger.heldAt, hbefore, hafter, SortedMap.contents_of_put hput]
      exact add_zero _
    · have hother : Ledger.legacyAt { ledger with
          deposits
          legacyDeposits := ledger.legacyDeposits.erase ⟨owner, asset, epoch⟩ }
            ⟨owner, asset, index'⟩ = ledger.legacyAt ⟨owner, asset, index'⟩ := by
        show (ledger.epochAt asset index').bind _ = (ledger.epochAt asset index').bind _
        cases hepoch' : ledger.epochAt asset index' with
        | none => rfl
        | some epoch' =>
          refine SortedMap.get?_erase_of_ne _ fun hslot => heq ?_
          obtain rfl : epoch' = epoch := congrArg Slot.mark hslot
          exact Ledger.epochAt_inj hepoch' hepoch
      have hcurrent : deposits.get? ⟨owner, asset, index'⟩ =
          ledger.deposits.get? ⟨owner, asset, index'⟩ :=
        SortedMap.get?_of_put hput fun hslot => heq (congrArg Slot.mark hslot)
      rw [Ledger.heldAt, Ledger.heldAt, hother]
      exact congrArg (contents · + _) hcurrent
  · exact List.forall_mem_singleton.mpr (SortedMap.get?_erase_self _ _)
  · exact SortedMap.get?_erase_of_ne _ (hslot epoch List.mem_cons_self)
  · exact SortedMap.get?_of_put hput (hslot index List.mem_cons_self)
  · have hheld : ledger.holdsLegacy owner asset epoch = true := by
      rw [Ledger.holdsLegacy, Ledger.legacyPosition, hget]
      rfl
    rw [List.filter_cons_of_pos hheld]
    exact .cons hindex .nil

/-- **Some epochs**, by induction on the list: each migration starts from what the ones before have
left. -/
theorem migrateEach_migrates {epochs : List Epoch} {out : Outcome (List Index)}
    (hterms : ledger.legacyTerms asset = .ok terms) (hrate : 0 < terms.ratePerEpoch.toInt)
    (h : migrateEach owner asset terms epochs ledger = .ok out) :
    Migrates owner asset terms epochs out.result ledger out.ledger := by
  induction epochs generalizing ledger out with
  | nil =>
    obtain rfl := pure_eq_ok.mp h
    exact .refl (List.forall_mem_nil _)
  | cons epoch epochs ih =>
    obtain ⟨first, rest, hfirst, hnext, rfl⟩ := bind_apply_ok.mp h
    obtain ⟨others, hothers, rfl⟩ := bind_pure_eq_ok.mp hnext
    have hmigrates := migrateEpoch_migrates hterms hrate hfirst
    have hterms' : first.ledger.legacyTerms asset = .ok terms := by
      rw [hmigrates.rest]
      exact hterms
    exact hmigrates.trans hrate (ih hterms' hothers)

namespace Vault

/-- **Migration only moves entries between the stores.**  After any requests to a new vault, let a
migration of an account in an asset be answered, for a list of legacy epochs in whatever order, with
repetitions and with epochs that hold nothing.  Then a mowing would have been answered, the asset has
a legacy format, and next to the vault in which the account has been mown the positions under the
epochs have moved to the indices of the epochs, these are what is answered, and nothing else is
different but the log. -/
theorem migration_moves_entries {charter : Charter} {start : Vault}
    (h : genesis charter = .ok start) (requests : List Request) {owner : AccountId}
    {asset : AssetId} {epochs : List Epoch} {indices : List Index}
    (hanswer : (serve (.migrate owner asset epochs) (run requests start).2).1.result =
      .ok (.indices indices)) :
    let vault := (run requests start).2
    let mown := (serve (.mow owner asset) vault).2
    let migrated := (serve (.migrate owner asset epochs) vault).2
    (∃ grown, (serve (.mow owner asset) vault).1.result = .ok (.amount grown)) ∧
    (∃ terms, mown.ledger.legacyTerms asset = .ok terms ∧
      Migrates owner asset terms epochs indices mown.ledger migrated.ledger) ∧
    migrated = { mown with ledger := migrated.ledger, log := migrated.log } := by
  intro vault mown migrated
  obtain ⟨ho, hentered⟩ := orderly h requests
  have hhoused : vault.ledger.Housed := ho.consistent.housed
  rw [serve] at hanswer
  obtain ⟨out, hmigrate, -, hindices⟩ := (transact_changed hentered).answered hanswer
  obtain rfl := Answer.indices.inj hindices
  obtain ⟨terms, mowed, moved, hterms, hmow, hmoved, rfl⟩ := migrate_stages hmigrate
  have hmown : serve (.mow owner asset) vault =
      (⟨.ok (.amount mowed.result), none, mowed.events⟩, vault.committed mowed) :=
    mow_answered hentered hmow
  have hmigrated : migrated =
      vault.committed ⟨moved.result, moved.ledger, mowed.events ++ moved.events⟩ := by
    show (serve (.migrate owner asset epochs) vault).2 = _
    rw [serve, transact_of_ok hentered hmigrate]
    rfl
  have hterms' : mowed.ledger.legacyTerms asset = .ok terms :=
    (mow_moves hmow).1.keeps.toSameTerms.legacyTerms hterms
  obtain ⟨entry, hentry, hlegacy⟩ := Ledger.legacyTerms_eq_ok.mp hterms
  have hrate := (hhoused.asset (Ledger.asset_eq_ok.mp hentry)).legacyRate hlegacy
  have hledger : mown.ledger = mowed.ledger := congrArg (fun served => served.2.ledger) hmown
  refine ⟨⟨_, congrArg (fun served => served.1.result) hmown⟩, ⟨terms, ?_, ?_⟩, ?_⟩
  · rw [hledger]
    exact hterms'
  · have hmigrates := migrateEach_migrates hterms' hrate hmoved
    rw [hledger, hmigrated]
    exact hmigrates
  · show migrated = { (serve (.mow owner asset) vault).2 with
      ledger := migrated.ledger, log := migrated.log }
    rw [hmown, hmigrated]
    rfl

/-- Account 7 holds something under the legacy epochs 2 and 6, and at the index of epoch 6 something
in the current store, too. -/
def layeredRequests : List Request := splitRequests ++ [.call (.importLegacy 7 1 2 4 6)]

/-- Epoch 3 is passed over, and epoch 2 moves once. -/
theorem migration_moves_entries_layered : genesis ⟨10, 10, 0, 9⟩ = .ok sample ∧
    let vault := (run layeredRequests sample).2
    let mown := (serve (.mow 7 1) vault).2
    let migrated := (serve (.migrate 7 1 [2, 3, 6, 2]) vault).2
    (serve (.migrate 7 1 [2, 3, 6, 2]) vault).1.result =
        .ok (.indices [.ofInt (-16), .ofInt (-8)]) ∧
      (∃ grown, (serve (.mow 7 1) vault).1.result = .ok (.amount grown)) ∧
      (∃ terms, mown.ledger.legacyTerms 1 = .ok terms ∧
        Migrates 7 1 terms [2, 3, 6, 2] [.ofInt (-16), .ofInt (-8)] mown.ledger migrated.ledger) ∧
      migrated = { mown with ledger := migrated.ledger, log := migrated.log } := by
  have hanswer : (serve (.migrate 7 1 [2, 3, 6, 2]) (run layeredRequests sample).2).1.result =
      .ok (.indices [.ofInt (-16), .ofInt (-8)]) := by decide +kernel
  exact ⟨genesis_sample, hanswer, migration_moves_entries genesis_sample layeredRequests hanswer⟩

end Vault

end StalkLedger
