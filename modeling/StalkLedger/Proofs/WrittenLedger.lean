import StalkLedger.Wire.Ledger
import StalkLedger.Proofs.Drafting
import StalkLedger.Proofs.Transition

/-!
# Ledgers as they are written

The draft of a ledger has the ledger's books, with a list of entries in the place of every map: the
registry, the accounts and the checkpoints of each, the two stores and the floods (`LedgerDraft`).
`LedgerDraft.ledger` gathers it, and `LedgerDraft.Ascending` says that every one of the lists has
its keys in strictly ascending order.

**Writing and reading** (`Ledger.written_and_read`).  A ledger whose maps can be counted is
written, is read back, and is not read from less or more than its bytes.  Bytes that are read as a
ledger are those of one draft; the ledger is written anew in no more bytes, and in the same ones
just if the draft ascends.
-/

namespace StalkLedger

open Wire

/-! ### Drafts -/

/-- An account with its checkpoints as they are written. -/
structure AccountDraft where
  stalk : Amount
  roots : Amount
  lastUpdate : Epoch
  checkpoints : List (AssetId × Checkpoint)
  flood : FloodShare

/-- The book of floods with the floods as they are written. -/
structure FloodBookDraft where
  active : Option Epoch
  payoutPerRoot : Amount
  floods : List (Epoch × Flood)
  totalPaid : Amount
  unallocated : Amount
  totalClaimed : Amount

/-- The ledger with its books as they are written. -/
structure LedgerDraft where
  charter : Charter
  epoch : Epoch
  assets : List (AssetId × Asset)
  accounts : List (AccountId × AccountDraft)
  deposits : List (Slot Index × Position)
  legacyDeposits : List (Slot Epoch × Position)
  totals : Totals
  floodBook : FloodBookDraft

instance : Record AccountDraft
    (Amount × Amount × Epoch × List (AssetId × Checkpoint) × FloodShare) where
  parts a := (a.stalk, a.roots, a.lastUpdate, a.checkpoints, a.flood)
  ofParts := fun (stalk, roots, lastUpdate, checkpoints, flood) =>
    ⟨stalk, roots, lastUpdate, checkpoints, flood⟩
  ofParts_parts _ := rfl
  parts_ofParts _ := rfl

instance : Record FloodBookDraft
    (Option Epoch × Amount × List (Epoch × Flood) × Amount × Amount × Amount) where
  parts b := (b.active, b.payoutPerRoot, b.floods, b.totalPaid, b.unallocated, b.totalClaimed)
  ofParts := fun (active, payoutPerRoot, floods, totalPaid, unallocated, totalClaimed) =>
    ⟨active, payoutPerRoot, floods, totalPaid, unallocated, totalClaimed⟩
  ofParts_parts _ := rfl
  parts_ofParts _ := rfl

instance : Record LedgerDraft
    (Charter × Epoch × List (AssetId × Asset) × List (AccountId × AccountDraft) ×
      List (Slot Index × Position) × List (Slot Epoch × Position) × Totals × FloodBookDraft) where
  parts l := (l.charter, l.epoch, l.assets, l.accounts, l.deposits, l.legacyDeposits, l.totals,
    l.floodBook)
  ofParts := fun (charter, epoch, assets, accounts, deposits, legacyDeposits, totals, floodBook) =>
    ⟨charter, epoch, assets, accounts, deposits, legacyDeposits, totals, floodBook⟩
  ofParts_parts _ := rfl
  parts_ofParts _ := rfl

set_option synthInstance.maxSize 512 in
/-- A draft is written as the ledger is, with its lists as they are. -/
instance : Wire LedgerDraft := inferInstance

/-! ### What a draft is a draft of -/

namespace AccountDraft

/-- The account that a draft is a draft of. -/
def account (draft : AccountDraft) : Account :=
  ⟨draft.stalk, draft.roots, draft.lastUpdate, .ofList draft.checkpoints, draft.flood⟩

end AccountDraft

namespace FloodBookDraft

/-- The book that a draft is a draft of. -/
def floodBook (draft : FloodBookDraft) : FloodBook :=
  ⟨draft.active, draft.payoutPerRoot, .ofList draft.floods, draft.totalPaid, draft.unallocated,
    draft.totalClaimed⟩

end FloodBookDraft

namespace LedgerDraft

/-- The ledger that a draft is a draft of: of several entries under one key the last counts. -/
def ledger (draft : LedgerDraft) : Ledger where
  charter := draft.charter
  epoch := draft.epoch
  assets := .ofList draft.assets
  accounts := .ofList (draft.accounts.map fun e => (e.1, e.2.account))
  deposits := .ofList draft.deposits
  legacyDeposits := .ofList draft.legacyDeposits
  totals := draft.totals
  floodBook := draft.floodBook.floodBook

/-- The keys of every list are strictly ascending. -/
structure Ascending (draft : LedgerDraft) : Prop where
  assets : Entries.Ascending draft.assets
  accounts : Entries.Ascending draft.accounts
  checkpoints : ∀ e ∈ draft.accounts, Entries.Ascending e.2.checkpoints
  deposits : Entries.Ascending draft.deposits
  legacyDeposits : Entries.Ascending draft.legacyDeposits
  floods : Entries.Ascending draft.floodBook.floods

end LedgerDraft

/-! ### Their draftings -/

namespace Wire.Drafting

section Map

variable {κ α δ : Type} [Key κ] [Wire κ] [Lawful κ] [Canonical κ] [Wire α] [Wire δ]

/-- The draft of a map has as many entries as the map. -/
theorem map_countable_draft (s : Drafting α δ) {m : SortedMap κ α} :
    (s.map : Drafting (SortedMap κ α) _).Countable (s.map.draft m) ↔
      m.writable ∧ ∀ e ∈ m.entries, s.Countable (s.draft e.2) := by
  have hlength : ((s.map : Drafting (SortedMap κ α) _).draft m).length = m.size := List.length_map _
  rw [SortedMap.writable, decide_eq_true_iff, ← hlength]
  exact and_congr_right' List.forall_mem_map

end Map

section Plain

variable {κ α : Type} [Key κ] [Wire κ] [Lawful κ] [Canonical κ] [Wire α] [Lawful α] [Canonical α]

/-- Drafts of maps whose values hold no maps. -/
def plain (κ α : Type) [Key κ] [Wire κ] [Lawful κ] [Canonical κ] [Wire α] [Lawful α]
    [Canonical α] : Drafting (SortedMap κ α) (List (κ × α)) :=
  (same α).map

@[simp] theorem plain_gather (es : List (κ × α)) : (plain κ α).gather es = .ofList es :=
  congrArg SortedMap.ofList (List.map_id es)

/-- A map is drafted as the list of its entries, in the order they are written, -/
@[simp] theorem plain_ascending {es : List (κ × α)} :
    (plain κ α).Ascending es ↔ Entries.Ascending es :=
  and_iff_left fun _ _ => trivial

/-- and can be written if the list can be counted. -/
@[simp] theorem plain_countable_draft {m : SortedMap κ α} :
    (plain κ α).Countable ((plain κ α).draft m) ↔ m.writable :=
  (same α).map_countable_draft.trans (and_iff_left fun _ _ => trivial)

end Plain

/-- Drafts of accounts. -/
def account : Drafting Account AccountDraft :=
  ((same Amount).pair ((same Amount).pair ((same Epoch).pair
    ((plain AssetId Checkpoint).pair (same FloodShare))))).record

/-- The draft of an account gathers its checkpoints, -/
@[simp] theorem account_gather (draft : AccountDraft) : account.gather draft = draft.account := by
  show Record.ofParts _ = _
  simp [pair, same, AccountDraft.account, Record.parts, Record.ofParts]

/-- and ascends if they do. -/
@[simp] theorem account_ascending {draft : AccountDraft} :
    account.Ascending draft ↔ Entries.Ascending draft.checkpoints := by
  simp [account, record, pair, same, Record.parts]

@[simp] theorem account_countable_draft {a : Account} :
    account.Countable (account.draft a) ↔ a.checkpoints.writable := by
  simp [account, record, pair, same, Record.parts, Record.ofParts]

/-- Drafts of the table of accounts. -/
def accounts : Drafting (SortedMap AccountId Account) (List (AccountId × AccountDraft)) :=
  account.map

/-- The draft of all accounts gathers each of them, -/
@[simp] theorem accounts_gather (es : List (AccountId × AccountDraft)) :
    accounts.gather es = .ofList (es.map fun e => (e.1, e.2.account)) :=
  congrArg SortedMap.ofList (List.map_congr_left fun e _ => Prod.ext rfl (account_gather e.2))

/-- and ascends if the accounts do, and the checkpoints of each. -/
@[simp] theorem accounts_ascending {es : List (AccountId × AccountDraft)} :
    accounts.Ascending es ↔
      Entries.Ascending es ∧ ∀ e ∈ es, Entries.Ascending e.2.checkpoints :=
  and_congr_right' (forall₂_congr fun _ _ => account_ascending)

@[simp] theorem accounts_countable_draft {m : SortedMap AccountId Account} :
    accounts.Countable (accounts.draft m) ↔
      m.writable ∧ ∀ e ∈ m.entries, e.2.checkpoints.writable :=
  account.map_countable_draft.trans
    (and_congr_right' (forall₂_congr fun _ _ => account_countable_draft))

/-- Drafts of the book of floods. -/
def floodBook : Drafting FloodBook FloodBookDraft :=
  ((same (Option Epoch)).pair ((same Amount).pair ((plain Epoch Flood).pair
    ((same Amount).pair ((same Amount).pair (same Amount)))))).record

set_option synthInstance.maxSize 512 in
/-- Drafts of ledgers. -/
def ledger : Drafting Ledger LedgerDraft :=
  ((same Charter).pair ((same Epoch).pair ((plain AssetId Asset).pair (accounts.pair
    ((plain (Slot Index) Position).pair ((plain (Slot Epoch) Position).pair
      ((same Totals).pair floodBook))))))).record

/-- The draft of a ledger that is put together from these is its draft with named books, -/
theorem ledger_gather (draft : LedgerDraft) : ledger.gather draft = draft.ledger := by
  simp [ledger, record, pair, same, Record.parts, Record.ofParts, floodBook, LedgerDraft.ledger,
    FloodBookDraft.floodBook]

/-- ascends when that does, -/
theorem ledger_ascending {draft : LedgerDraft} : ledger.Ascending draft ↔ draft.Ascending := by
  simp only [ledger, record, pair, same, Record.parts, floodBook, plain_ascending,
    accounts_ascending, true_and, and_true]
  constructor
  · rintro ⟨h₁, ⟨h₂, h₃⟩, h₄, h₅, h₆⟩
    exact ⟨h₁, h₂, h₃, h₄, h₅, h₆⟩
  · rintro ⟨h₁, h₂, h₃, h₄, h₅, h₆⟩
    exact ⟨h₁, ⟨h₂, h₃⟩, h₄, h₅, h₆⟩

/-- and can be counted when the ledger can be written. -/
theorem ledger_countable_draft {l : Ledger} :
    ledger.Countable (ledger.draft l) ↔ l.writable := by
  simp only [ledger, record, pair, same, Record.parts, Record.ofParts, floodBook,
    plain_countable_draft, accounts_countable_draft, true_and, and_true, Ledger.writable,
    Bool.and_eq_true, List.all_eq_true, and_assoc]

end Wire.Drafting

/-! ### Whole ledgers -/

namespace Ledger

open Wire.Drafting (ledger_gather ledger_ascending ledger_countable_draft)

/-- A ledger is restored from the bytes that are decoded as it, -/
theorem ofBytes_eq_ok {bytes : List UInt8} {ledger : Ledger} :
    ofBytes bytes = .ok ledger ↔ decode bytes = some ledger := by
  unfold ofBytes
  cases (decode bytes : Option Ledger) <;> simp

/-- and all other bytes are malformed. -/
theorem ofBytes_eq_error {bytes : List UInt8} (h : (decode bytes : Option Ledger) = none) :
    ofBytes bytes = .error .malformedLedger := by
  rw [ofBytes, h]

theorem toBytes_of_writable {ledger : Ledger} (h : ledger.writable) :
    ledger.toBytes = .ok (write ledger) := if_pos h

/-- A ledger that can be written is restored from its bytes. -/
theorem ofBytes_write {ledger : Ledger} (h : ledger.writable) :
    ofBytes (write ledger) = .ok ledger :=
  ofBytes_eq_ok.mpr (Drafting.ledger.decode_write (ledger_countable_draft.mpr h))

/-- **Writing and reading.**  A ledger whose maps can be counted is written, and what is written is
read as that ledger, but not if anything is cut off or added at its end.  Whatever bytes are read
as a ledger are those of a draft; the ledger is written anew, is read back from that, in no more
bytes, and in the same bytes just if the draft has the keys of all its lists in strictly ascending
order. -/
theorem written_and_read :
    (∀ ledger : Ledger, ledger.writable →
      ∃ bytes, ledger.toBytes = .ok bytes ∧ ofBytes bytes = .ok ledger ∧
        (∀ front tail, bytes = front ++ tail → tail ≠ [] →
          ofBytes front = .error .malformedLedger) ∧
        ∀ tail, tail ≠ [] → ofBytes (bytes ++ tail) = .error .malformedLedger) ∧
    ∀ (bytes : List UInt8) (ledger : Ledger), ofBytes bytes = .ok ledger →
      ∃ (draft : LedgerDraft) (rewritten : List UInt8),
        bytes = write draft ∧ decode bytes = some draft ∧ draft.ledger = ledger ∧
        ledger.toBytes = .ok rewritten ∧ ofBytes rewritten = .ok ledger ∧
        rewritten.length ≤ bytes.length ∧ (rewritten = bytes ↔ draft.Ascending) := by
  constructor
  · intro ledger h
    have hread : decode (write ledger) = some ledger := ofBytes_eq_ok.mp (ofBytes_write h)
    refine ⟨write ledger, toBytes_of_writable h, ofBytes_write h, ?_, ?_⟩
    · intro front tail hbytes htail
      rw [hbytes] at hread
      exact ofBytes_eq_error (Drafting.ledger.decode_front hread htail)
    · intro tail htail
      exact ofBytes_eq_error (Drafting.ledger.decode_append hread htail)
  · intro bytes ledger h
    obtain ⟨draft, hdraft, rfl⟩ := Drafting.ledger.decode_eq_some_iff.mp (ofBytes_eq_ok.mp h)
    obtain ⟨hcountable, rfl⟩ := Drafting.ledger.decode_draft_eq_some_iff.mp hdraft
    have hwritable : (Drafting.ledger.gather draft).writable :=
      ledger_countable_draft.mp (Drafting.ledger.countable_draft_gather hcountable)
    exact ⟨draft, _, rfl, hdraft, (ledger_gather draft).symm, toBytes_of_writable hwritable,
      ofBytes_write hwritable, Drafting.ledger.length_rewritten_le draft,
      (Drafting.ledger.rewritten_eq_iff hcountable).trans ledger_ascending⟩

/-- A draft with its accounts in descending order, one of them twice and once with its checkpoints
in descending order. -/
def scrambled : LedgerDraft where
  charter := ⟨10, 10, 0, 9⟩
  epoch := 12
  assets := []
  accounts := [(7, ⟨1, 0, 12, [(1, .fresh), (0, ⟨4, 5⟩)], .fresh⟩), (3, ⟨2, 0, 11, [], .fresh⟩),
    (7, ⟨4, 0, 12, [], .fresh⟩)]
  deposits := [(⟨7, 1, .ofInt (-2)⟩, ⟨1, 1⟩), (⟨7, 1, .ofInt (-2)⟩, ⟨2, 2⟩)]
  legacyDeposits := []
  totals := ⟨6, 0, 0⟩
  floodBook := ⟨none, 0, [], 0, 0, 0⟩

/-- The ledger of a run with a flood in it, and a draft whose accounts are in the wrong order. -/
theorem written_and_read_sample :
    ((Vault.run Vault.sampleRequests Vault.sample).2.ledger.writable = true ∧
      ∃ bytes, (Vault.run Vault.sampleRequests Vault.sample).2.ledger.toBytes = .ok bytes ∧
        ofBytes bytes = .ok (Vault.run Vault.sampleRequests Vault.sample).2.ledger ∧
        (∀ front tail, bytes = front ++ tail → tail ≠ [] →
          ofBytes front = .error .malformedLedger) ∧
        ∀ tail, tail ≠ [] → ofBytes (bytes ++ tail) = .error .malformedLedger) ∧
    ofBytes (write scrambled) = .ok scrambled.ledger ∧
      ∃ (draft : LedgerDraft) (rewritten : List UInt8),
        write scrambled = write draft ∧ decode (write scrambled) = some draft ∧
        draft.ledger = scrambled.ledger ∧ scrambled.ledger.toBytes = .ok rewritten ∧
        ofBytes rewritten = .ok scrambled.ledger ∧
        rewritten.length ≤ (write scrambled).length ∧
        (rewritten = write scrambled ↔ draft.Ascending) := by
  have hwritable : (Vault.run Vault.sampleRequests Vault.sample).2.ledger.writable = true := by
    decide +kernel
  have hread : ofBytes (write scrambled) = .ok scrambled.ledger := by
    decide +kernel
  exact ⟨⟨hwritable, written_and_read.1 _ hwritable⟩, hread, written_and_read.2 _ _ hread⟩

end Ledger

end StalkLedger
