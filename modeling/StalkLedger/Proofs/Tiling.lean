import StalkLedger.Proofs.Totals

/-!
# The history of floods

The payout per root only ever grows while a flood is on.  So the records of the floods, in the order
in which they began, cut its whole way into stretches that lie end to end.

* A flood begins after all others (`SortedMap.entries_insert_next`), and it is the last one that is
  paid or ends (`SortedMap.entries_insert_last`).
* The records of **floods that are over** are put together one by one (`FloodBook.Past`); **a book**
  has such records, and besides these only that of the flood that is on (`FloodBook.Charted`).  This is
  kept as floods begin, are paid and end.
* From it the stretches are read (`FloodBook.Tiles`), with the epochs in which floods end.
* **A share** that has joined a flood has been settled since this began (`FloodBook.Begun`).

So the records of a vault tile the history of its payouts, and every checkpoint lies on the stretch of
the flood its account has joined (`Vault.floods_tile`).
-/

namespace StalkLedger

open StalkLedger.Action Ledger

/-! ### The last entry of a map -/

section LastEntry

variable {κ α : Type} [Key κ] {k : κ} {a b : α}

/-- An entry finds its place behind all smaller keys. -/
theorem Entries.insert_append {front : List (κ × α)} (back : List (κ × α))
    (h : ∀ e ∈ front, Key.rank e.1 < Key.rank k) :
    Entries.insert k a (front ++ back) = front ++ Entries.insert k a back := by
  induction front with
  | nil => rfl
  | cons e front ih =>
    obtain ⟨hlt, hfront⟩ := List.forall_mem_cons.mp h
    rw [List.cons_append, Entries.insert, if_neg (Nat.lt_asymm hlt), if_neg (Nat.ne_of_gt hlt),
      ih hfront, List.cons_append]

namespace SortedMap

variable {m : SortedMap κ α}

/-- What is put under a new largest key comes last. -/
theorem entries_insert_next (h : ∀ e ∈ m.entries, Key.rank e.1 < Key.rank k) :
    (m.insert k a).entries = m.entries ++ [(k, a)] := by
  have hinsert := Entries.insert_append (a := a) [] h
  rwa [List.append_nil] at hinsert

/-- What is put under the largest key takes the place of the last entry. -/
theorem entries_insert_last {front : List (κ × α)} (h : m.entries = front ++ [(k, b)]) :
    (m.insert k a).entries = front ++ [(k, a)] := by
  have hfront : ∀ e ∈ front, Key.rank e.1 < Key.rank k := fun e he => by
    have hascending := m.ascending
    rw [h] at hascending
    exact (List.pairwise_append.mp hascending).2.2 e he _ (List.mem_singleton_self _)
  show Entries.insert k a m.entries = _
  rw [h, Entries.insert_append _ hfront, Entries.insert, if_neg (Nat.lt_irrefl _), if_pos rfl]

theorem get?_last {front : List (κ × α)} (h : m.entries = front ++ [(k, b)]) : m.get? k = some b :=
  mem_entries_iff.mp (h ▸ List.mem_append_right _ (List.mem_singleton_self _))

end SortedMap

end LastEntry

namespace FloodBook

/-! ### Floods that are over -/

/-- The records of floods that are over, one after the other, the last of which has ended in this epoch
or before; with the payout per root that they lead to. -/
inductive Past : List (Epoch × Flood) → Amount → Epoch → Prop
  | none {epoch : Epoch} : Past [] 0 epoch
  /-- After the others have ended, one more flood has begun where they led to, and ended. -/
  | ended {records start flood ended before epoch} (h : Past records flood.startIndex before)
      (hbegun : before < start) (hle : flood.startIndex ≤ flood.endIndex)
      (hended : flood.endedAt = some ended) (hlater : start < ended) (hepoch : ended ≤ epoch) :
      Past (records ++ [(start, flood)]) flood.endIndex epoch

/-- All floods of a book are over but the one that is on.  That one began where the others led to, and
has led to the payout per root. -/
inductive Charted (book : FloodBook) (epoch : Epoch) : Prop
  | idle (hoff : book.active = none) (h : Past book.floods.entries book.payoutPerRoot epoch)
  | flooding {past start flood before} (hon : book.active = some start)
      (hentries : book.floods.entries = past ++ [(start, flood)])
      (h : Past past flood.startIndex before) (hbegun : before < start) (hstart : start ≤ epoch)
      (hle : flood.startIndex ≤ flood.endIndex) (hopen : flood.endedAt = none)
      (hindex : flood.endIndex = book.payoutPerRoot)

variable {book book' : FloodBook} {records : List (Epoch × Flood)} {index : Amount}
  {epoch epoch' start : Epoch}

namespace Past

theorem later (h : Past records index epoch) (hle : epoch ≤ epoch') : Past records index epoch' := by
  cases h with
  | none => exact .none
  | ended h hbegun hindex hended hlater hepoch =>
    exact .ended h hbegun hindex hended hlater (Nat.le_trans hepoch hle)

/-- Each flood has ended after it began. -/
theorem of_mem (h : Past records index epoch) {e : Epoch × Flood} (he : e ∈ records) :
    ∃ ended, e.2.endedAt = some ended ∧ e.1 < ended ∧ ended ≤ epoch := by
  induction h with
  | none => cases he
  | ended h hbegun hindex hended hlater hepoch ih =>
    rcases List.mem_append.mp he with he | he
    · obtain ⟨ended, hsome, hlt, hle⟩ := ih he
      have hbefore := Nat.le_of_lt (Nat.lt_of_le_of_lt hle (Nat.lt_trans hbegun hlater))
      exact ⟨ended, hsome, hlt, Nat.le_trans hbefore hepoch⟩
    · obtain rfl := List.mem_singleton.mp he
      exact ⟨_, hended, hlater, hepoch⟩

/-- It has begun before a later one, -/
theorem lt_of_mem (h : Past records index epoch) (hlt : epoch < epoch') {e : Epoch × Flood}
    (he : e ∈ records) : e.1 < epoch' := by
  obtain ⟨ended, -, hbegun, hended⟩ := h.of_mem he
  exact Nat.lt_trans (Nat.lt_of_lt_of_le hbegun hended) hlt

/-- and ended too. -/
theorem ended_lt (h : Past records index epoch) (hlt : epoch < epoch') :
    ∀ e ∈ records, ∀ ended, e.2.endedAt = some ended → ended < epoch' := fun e he ended hsome => by
  obtain ⟨ended', hended', -, hle⟩ := h.of_mem he
  obtain rfl := Option.some.inj (hended'.symm.trans hsome)
  exact Nat.lt_of_le_of_lt hle hlt

end Past

namespace Charted

theorem of_same (h : book.Charted epoch) (ha : book'.active = book.active)
    (hf : book'.floods = book.floods) (hp : book'.payoutPerRoot = book.payoutPerRoot) :
    book'.Charted epoch := by
  cases h with
  | idle hoff h => exact .idle (ha.trans hoff) (by rw [hf, hp]; exact h)
  | flooding hon hentries h hbegun hstart hle hopen hindex =>
    exact .flooding (ha.trans hon) ((congrArg _ hf).trans hentries) h hbegun hstart hle hopen
      (hindex.trans hp.symm)

theorem later (h : book.Charted epoch) (hle : epoch ≤ epoch') : book.Charted epoch' := by
  cases h with
  | idle hoff h => exact .idle hoff (h.later hle)
  | flooding hon hentries h hbegun hstart hindex hopen hend =>
    exact .flooding hon hentries h hbegun (Nat.le_trans hstart hle) hindex hopen hend

/-- **A flood begins**, later than all before it. -/
theorem opened (h : book.Charted epoch) (hoff : book.active = none) (hlt : epoch < epoch')
    (roots : Amount) : (book.opened epoch' roots).Charted epoch' := by
  cases h with
  | idle _ h =>
    exact .flooding rfl (SortedMap.entries_insert_next fun e he => h.lt_of_mem hlt he) h hlt
      (Nat.le_refl _) (Nat.le_refl _) rfl rfl
  | flooding hon =>
    rw [hoff] at hon
    cases hon

/-- **The flood ends**, later than it began. -/
theorem closed (h : book.Charted epoch) (hon : book.active = some start) (hlt : epoch < epoch') :
    (book.closed start epoch').Charted epoch' := by
  cases h with
  | idle hoff =>
    rw [hon] at hoff
    cases hoff
  | @flooding past start' flood before hon' hentries h hbegun hstart hle hopen hindex =>
    obtain rfl := Option.some.inj (hon.symm.trans hon')
    rw [FloodBook.closed, SortedMap.get?_last hentries]
    refine .idle rfl ?_
    show Past (book.floods.insert start { flood with endedAt := some epoch' }).entries
      book.payoutPerRoot epoch'
    rw [SortedMap.entries_insert_last hentries, ← hindex]
    exact .ended h hbegun hle rfl (Nat.lt_of_le_of_lt hstart hlt) (Nat.le_refl _)

/-- **The flood is paid**: its stretch grows with the payout per root. -/
theorem paid {flood : Flood} {amount : Amount} (h : book.Charted epoch)
    (hon : book.active = some start) (hf : book.floods.get? start = some flood)
    (hpaid : book.paid start flood amount = .ok book') : book'.Charted epoch := by
  cases h with
  | idle hoff =>
    rw [hon] at hoff
    cases hoff
  | @flooding past start' current before hon' hentries h hbegun hstart hle hopen hindex =>
    obtain rfl := Option.some.inj (hon.symm.trans hon')
    obtain rfl := Option.some.inj (hf.symm.trans (SortedMap.get?_last hentries))
    obtain ⟨_, _, -, -, ⟨-, rfl⟩ | ⟨-, perRoot, _, index, _, -, -, hraised, rfl⟩⟩ := paid_stages hpaid
    · exact .flooding hon hentries h hbegun hstart hle hopen hindex
    · have hgrown : flood.startIndex ≤ index := by
        rw [hindex] at hle
        exact Nat.le_trans hle (hraised ▸ Nat.le_add_right _ _)
      exact .flooding hon (SortedMap.entries_insert_last hentries) h hbegun hstart hgrown hopen rfl

end Charted

/-! ### Stretches -/

/-- Records in their order cut the way from nought to an index into stretches that lie end to end, and
a flood that has ended has done so between its beginning and that of the next one. -/
structure Tiles (records : List (Epoch × Flood)) (index : Amount) : Prop where
  first : ∀ e ∈ records.head?, e.2.startIndex = 0
  ordered : ∀ e ∈ records, e.2.startIndex ≤ e.2.endIndex
  joined : records.IsChain fun e e' => e.2.endIndex = e'.2.startIndex
  last : records.getLast?.elim 0 (fun e => e.2.endIndex) = index
  ended : ∀ e ∈ records, ∀ ended, e.2.endedAt = some ended → e.1 < ended
  apart : records.IsChain fun e e' => ∀ ended, e.2.endedAt = some ended → ended < e'.1

/-- One more stretch. -/
theorem Tiles.snoc {flood : Flood} (h : Tiles records flood.startIndex)
    (hbefore : ∀ e ∈ records, ∀ ended, e.2.endedAt = some ended → ended < start)
    (hle : flood.startIndex ≤ flood.endIndex)
    (hended : ∀ ended, flood.endedAt = some ended → start < ended) :
    Tiles (records ++ [(start, flood)]) flood.endIndex := by
  have hmem {P : Epoch × Flood → Prop} (hrecords : ∀ e ∈ records, P e) (hlast : P (start, flood)) :
      ∀ e ∈ records ++ [(start, flood)], P e := fun e he => by
    rcases List.mem_append.mp he with he | he
    · exact hrecords e he
    · rw [List.mem_singleton.mp he]
      exact hlast
  refine ⟨fun e he => ?_, hmem h.ordered hle, List.isChain_append.mpr ⟨h.joined, .singleton _, ?_⟩,
    ?_, hmem h.ended hended, List.isChain_append.mpr ⟨h.apart, .singleton _, ?_⟩⟩
  · cases records with
    | nil =>
      cases he
      exact h.last.symm
    | cons e' records => exact h.first e he
  · rintro e he _ ⟨⟩
    have hlast := h.last
    rw [he] at hlast
    exact hlast
  · rw [List.getLast?_concat]
    rfl
  · rintro e he _ ⟨⟩
    exact hbefore e (List.mem_of_getLast? he)

theorem Past.tiles (h : Past records index epoch) : Tiles records index := by
  induction h with
  | none => exact ⟨nofun, nofun, .nil, rfl, nofun, .nil⟩
  | ended h hbegun hle hended hlater _ ih =>
    refine ih.snoc (h.ended_lt hbegun) hle fun ended hsome => ?_
    obtain rfl := Option.some.inj (hended.symm.trans hsome)
    exact hlater

/-- The records of a book, in the order of the epochs in which floods began, tile the way of the payout
per root; the flood that is on is the one that has not ended, and the last. -/
structure Tiling (book : FloodBook) : Prop extends
    Tiles book.floods.entries book.payoutPerRoot where
  inOrder : book.floods.entries.Pairwise fun e e' => e.1 < e'.1
  open_iff : ∀ e ∈ book.floods.entries, e.2.endedAt = none ↔ book.active = some e.1
  active_last : ∀ start, book.active = some start →
    ∃ flood, book.floods.entries.getLast? = some (start, flood)

/-- **The records of a book tile** the way of the payout per root. -/
theorem Charted.tiling (h : book.Charted epoch) : book.Tiling := by
  cases h with
  | idle hoff h =>
    refine ⟨h.tiles, book.floods.ascending, fun e he => ?_, fun start hon => ?_⟩
    · obtain ⟨ended, hended, -⟩ := h.of_mem he
      rw [hended, hoff]
      exact ⟨nofun, nofun⟩
    · rw [hoff] at hon
      cases hon
  | @flooding past start flood before hon hentries h hbegun hstart hle hopen hindex =>
    have htiles := h.tiles.snoc (h.ended_lt hbegun) hle fun ended hsome => by
      rw [hopen] at hsome
      cases hsome
    rw [← hentries, hindex] at htiles
    refine ⟨htiles, book.floods.ascending, fun e he => ?_, fun start' hon' => ?_⟩
    · rw [hentries] at he
      rcases List.mem_append.mp he with he | he
      · -- A flood that is over began before the one that is on.
        obtain ⟨ended, hended, -⟩ := h.of_mem he
        rw [hended, hon]
        refine ⟨nofun, fun hsame => ?_⟩
        have hlt := h.lt_of_mem hbegun he
        rw [Option.some.inj hsame] at hlt
        exact absurd hlt (Nat.lt_irrefl _)
      · rw [List.mem_singleton.mp he]
        exact ⟨fun _ => hon, fun _ => hopen⟩
    · obtain rfl := Option.some.inj (hon.symm.trans hon')
      exact ⟨flood, by rw [hentries, List.getLast?_concat]⟩

/-! ### Checkpoints -/

/-- A share has been settled since the flood began that it has joined. -/
def Begun (book : FloodBook) (share : FloodShare) : Prop :=
  ∀ start, share.trackedFlood = some start →
    ∃ flood, book.floods.get? start = some flood ∧ flood.startIndex ≤ share.checkpoint

namespace Begun

variable {share : FloodShare}

/-- So it is when it has just been settled. -/
theorem of_settled (hb : book.Sound epoch) (ht : share.trackedFlood = book.active)
    (hc : share.checkpoint = book.payoutPerRoot) : book.Begun share := fun start hstart => by
  obtain ⟨flood, hf, hend⟩ := hb.active (ht.symm.trans hstart)
  refine ⟨flood, hf, ?_⟩
  rw [hc, ← hend]
  exact (hb.record hf).2.1

/-- Records may be marked in any way that leaves the beginnings of their floods. -/
theorem of_marked (h : book.Begun share)
    (hmark : ∀ {start flood}, book.floods.get? start = some flood →
      ∃ flood', book'.floods.get? start = some flood' ∧ flood'.startIndex = flood.startIndex) :
    book'.Begun share := fun start hstart => by
  obtain ⟨flood, hf, hle⟩ := h start hstart
  obtain ⟨flood', hf', hsame⟩ := hmark hf
  exact ⟨flood', hf', hsame ▸ hle⟩

end Begun

end FloodBook

/-! ### Ledgers -/

/-- The floods of a ledger are charted, and every account has been settled since the flood began that
it has joined. -/
structure Ledger.Charted (ledger : Ledger) : Prop where
  book : ledger.floodBook.Charted ledger.epoch
  shares : ∀ id, ledger.floodBook.Begun (ledger.account id).flood

namespace Ledger

variable {ledger ledger' : Ledger}

theorem Charted.of_same (h : ledger.Charted) (ha : ledger'.accounts = ledger.accounts)
    (he : ledger'.epoch = ledger.epoch) (hb : ledger'.floodBook = ledger.floodBook) :
    ledger'.Charted := by
  refine ⟨?_, fun id => ?_⟩
  · rw [hb, he]
    exact h.book
  · rw [hb, account_congr ha]
    exact h.shares id

theorem Charted.withAccount (h : ledger.Charted) {id : AccountId} {account : Account}
    (ha : ledger.floodBook.Begun account.flood) : (ledger.withAccount id account).Charted := by
  refine ⟨h.book, fun id' => ?_⟩
  rw [account_withAccount]
  split
  · exact ha
  · exact h.shares id'

/-- **Between two reports** an account is settled, or floods do not see what happens to it. -/
theorem Drift.charted (h : Drift ledger ledger') (hs : ledger.Solvent) (hc : ledger.Charted) :
    ledger'.Charted := by
  induction h with
  | still ha he hb => exact hc.of_same ha he hb
  | @touch ledger id account ht =>
    refine hc.withAccount ?_
    obtain ⟨hadmits, -⟩ := ht.spec hs.book (hs.account id) (hs.owing_lt id)
    cases ht with
    | settled hlt hsettle hr hf hl =>
      obtain ⟨htracked, hcheckpoint⟩ := hadmits.settled (Nat.le_of_eq (congrArg _ hl.symm))
      exact .of_settled hs.book htracked hcheckpoint
    | reweighed hle hf hl =>
      rw [hf]
      exact hc.shares id
  | trans h _ ih ih' => exact ih' (h.solvent hs).1 (ih hs hc)

/-- A report turns the floods. -/
theorem Reported.charted (h : Reported ledger ledger') (hs : ledger.Solvent) (hc : ledger.Charted) :
    ledger'.Charted := by
  refine ⟨?_, fun id => ?_⟩
  · cases h.turned with
    | stays hb =>
      rw [hb]
      exact hc.book.later (Nat.le_of_lt h.epoch)
    | begins hoff hb =>
      rw [hb]
      exact hc.book.opened hoff h.epoch _
    | ends hon hb =>
      rw [hb]
      exact hc.book.closed hon h.epoch
  · rw [h.account]
    cases h.turned with
    | stays hb =>
      rw [hb]
      exact hc.shares id
    | begins hoff hb =>
      rw [hb]
      refine (hc.shares id).of_marked fun hf => ?_
      exact ⟨_, FloodBook.get?_opened (hs.recorded_lt h.epoch) hf, rfl⟩
    | ends hon hb =>
      rw [hb]
      refine (hc.shares id).of_marked fun {start flood} hf => ?_
      obtain ⟨mark, hget, hmark⟩ := FloodBook.get?_closed hon hs.book ledger'.epoch start
      exact ⟨mark flood, by rw [hget, hf, Option.map_some], (hmark flood).1⟩

/-- A payout moves the end of the flood that is on. -/
theorem Paid.charted {start : Epoch} {flood : Flood} {amount : Amount}
    (h : Paid ledger ledger' start flood amount) (hs : ledger.Solvent) (hc : ledger.Charted) :
    ledger'.Charted := by
  obtain ⟨current, hcurrent, hend⟩ := hs.book.active h.active
  obtain rfl := Option.some.inj (h.record.symm.trans hcurrent)
  obtain ⟨steps, allocated, hraised, -⟩ := FloodBook.paid_spec h.record hend h.paid
  rw [h.ledger]
  refine ⟨hc.book.paid h.active h.record h.paid, fun id => ?_⟩
  refine (hc.shares id).of_marked fun {start' record} hf => ?_
  obtain ⟨mark, hget, hmark⟩ := hraised.records start'
  exact ⟨mark record, by rw [hget, hf, Option.map_some], (hmark record hf).1⟩

theorem charted_of_genesis {charter : Charter} (h : Ledger.genesis charter = .ok ledger) :
    ledger.Charted := by
  simp only [Ledger.genesis, bind_eq_ok, StalkLedger.pure_eq_ok] at h
  obtain ⟨_, -, rfl⟩ := h
  refine ⟨.idle rfl .none, fun id start hjoined => ?_⟩
  cases hjoined

end Ledger

/-- **Transitions keep the floods charted.** -/
theorem Transition.charted {ledger ledger' : Ledger} {paid : AccountId → ℕ} {events : Event.Log}
    (h : Transition ledger paid events ledger') (ho : ledger.Orderly) (hc : ledger.Charted) :
    ledger'.Charted := by
  cases h with
  | posting h => exact h.drift.charted ho.solvent hc
  | @claim id _ h =>
    obtain ⟨updated, totalClaimed, hu, -, -, rfl⟩ := claimFlood_stages h
    have hupdated := (Move.update hu).drift.charted ho.solvent hc
    have hemptied : (updated.ledger.withAccount id { updated.ledger.account id with
        flood := { (updated.ledger.account id).flood with claimable := 0 } }).Charted :=
      hupdated.withAccount (hupdated.shares id)
    exact ⟨hemptied.book.of_same rfl rfl rfl, hemptied.shares⟩
  | whitelist h =>
    obtain ⟨-, -, -, rfl⟩ := whitelist_stages h
    exact hc.of_same rfl rfl rfl
  | dewhitelist h =>
    obtain ⟨entry, -, rfl⟩ := dewhitelist_stages h
    exact hc.of_same rfl rfl rfl
  | setAccrualRate h =>
    obtain ⟨-, entry, -, rfl⟩ := setAccrualRate_stages h
    exact hc.of_same rfl rfl rfl
  | reward h =>
    rcases receiveReward_stages h with ⟨-, rfl⟩ | ⟨_, _, _, _, -, -, -, -, rfl⟩
    · exact hc
    · exact hc.of_same rfl rfl rfl
  | advance h =>
    rcases reported_of_advanceEpoch h with heq | ⟨turned, hreported, hpaid⟩
    · rw [heq]
      exact hc
    have hturned := hreported.charted ho.solvent hc
    rcases hpaid with heq | ⟨start, flood, amount, hpaid⟩
    · rw [heq]
      exact hturned
    · exact hpaid.charted (hreported.solvent ho.solvent ho.totalled.roots) hturned

/-! ### Vaults -/

namespace Vault

/-- **The records of floods tile the history of payouts.**  After any requests to a new vault, the
records in the order of the epochs in which the floods began cut the payout per root, from nought to
what it is, into stretches that lie end to end; the flood that is on, if there is one, is the last and
the only one that has not ended, and every other has ended after it began and before the next one
did.  The flood that an account has joined has a record, and the checkpoint of the account lies on its
stretch. -/
theorem floods_tile {charter : Charter} {start : Vault} (h : genesis charter = .ok start)
    (requests : List Request) :
    let ledger := (run requests start).2.ledger
    ledger.floodBook.Tiling ∧
      ∀ id joined, (ledger.account id).flood.trackedFlood = some joined →
        ∃ flood, ledger.floodBook.floods.get? joined = some flood ∧
          flood.startIndex ≤ (ledger.account id).flood.checkpoint ∧
            (ledger.account id).flood.checkpoint ≤ flood.endIndex := by
  intro ledger
  obtain ⟨hledger, hentered⟩ := genesis_eq_ok h
  obtain ⟨horderly, hbook, hshares⟩ : ledger.Orderly ∧ ledger.Charted :=
    run_invariant (P := fun ledger => ledger.Orderly ∧ ledger.Charted)
      (fun ⟨ho, hc⟩ ht => ⟨ht.orderly ho, ht.charted ho hc⟩) requests hentered
      ⟨orderly_of_genesis hledger, charted_of_genesis hledger⟩
  refine ⟨hbook.tiling, fun id joined hjoined => ?_⟩
  obtain ⟨flood, hf, hle⟩ := hshares id joined hjoined
  obtain ⟨flood', hf', hle'⟩ := (horderly.solvent.account id).share.tracked hjoined
  obtain rfl := Option.some.inj (hf.symm.trans hf')
  exact ⟨flood, hf, hle, hle'⟩

/-- A second flood is on and has been paid twice; account 8 has joined it in between, and account 7 has
not been looked at since the first. -/
theorem floods_tile_second : genesis ⟨10, 10, 0, 9⟩ = .ok sample ∧
    let requests := sampleRequests ++ [.call (.advanceEpoch ⟨15, true, 600, 0⟩), .call (.mow 8 1),
      .call (.advanceEpoch ⟨16, true, 60, 0⟩)]
    let ledger := (run requests sample).2.ledger
    (ledger.floodBook.floods.entries.map fun e => (e.1, e.2.endedAt)) = [(12, some 13), (15, none)] ∧
    (ledger.account 7).flood.trackedFlood = some 12 ∧
    (ledger.account 8).flood.trackedFlood = some 15 ∧
    ledger.floodBook.Tiling ∧
      ∀ id joined, (ledger.account id).flood.trackedFlood = some joined →
        ∃ flood, ledger.floodBook.floods.get? joined = some flood ∧
          flood.startIndex ≤ (ledger.account id).flood.checkpoint ∧
            (ledger.account id).flood.checkpoint ≤ flood.endIndex :=
  ⟨genesis_sample, by decide +kernel, by decide +kernel, by decide +kernel,
    floods_tile genesis_sample _⟩

end Vault

end StalkLedger
