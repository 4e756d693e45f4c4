import StalkLedger.Proofs.Absorption
import StalkLedger.Proofs.Ticks
import StalkLedger.Proofs.Totals

/-!
# Realizing late

Nobody has to mow in every epoch.  Whenever an account is mown in an asset, it gets its value there
times the distance that its checkpoint moves, and the distances add up.

* **How far the assets have grown** (`Ledger.Aged`) depends on the epoch that the clock has got to.
* **What an account has realized** (`Ledger.Realizes`) adds up over any schedule of plain reports
  and mowings (`Ledger.Realizes.trans`); and if it is current at the end, that depends on the epoch,
  too (`Ledger.Realizes.unique`).

So mowing now and then comes to the same as mowing once (`Vault.lazy_realization`).
-/

namespace StalkLedger

open StalkLedger.Action

variable {ledger ledger' ledger'' : Ledger}

namespace Ledger

variable {id : AccountId} {asset : AssetId}

/-! ### Growth that is credited in parts -/

/-- Some epochs have gone by, and all assets have grown by their rates for each of them. -/
structure Aged (ledger ledger' : Ledger) : Prop where
  epoch : ledger.epoch ≤ ledger'.epoch
  unlisted : ∀ {id}, ledger.assets.get? id = none → ledger'.assets.get? id = none
  listed : ∀ {id entry}, ledger.assets.get? id = some entry → ∃ index : Index,
    index.toInt = entry.accrualIndex.toInt +
      entry.accrualRate.toInt * ((ledger'.epoch.toNat : ℤ) - ledger.epoch.toNat) ∧
    ledger'.assets.get? id = some { entry with accrualIndex := index }

namespace Aged

/-- No epoch has gone by. -/
theorem of_eq (hepoch : ledger'.epoch = ledger.epoch) (hassets : ledger'.assets = ledger.assets) :
    Aged ledger ledger' where
  epoch := Nat.le_of_eq (congrArg _ hepoch.symm)
  unlisted hnone := hassets ▸ hnone
  listed {_ entry} hentry := by
    refine ⟨entry.accrualIndex, ?_, hassets ▸ hentry⟩
    rw [hepoch, sub_self, Int.mul_zero, Int.add_zero]

theorem trans (h : Aged ledger ledger') (h' : Aged ledger' ledger'') : Aged ledger ledger'' where
  epoch := Nat.le_trans h.epoch h'.epoch
  unlisted hnone := h'.unlisted (h.unlisted hnone)
  listed hentry := by
    obtain ⟨index, hindex, hentry'⟩ := h.listed hentry
    obtain ⟨index', hindex', hentry''⟩ := h'.listed hentry'
    refine ⟨index', ?_, hentry''⟩
    -- The rate is the same in both, so that the epochs add up.
    dsimp only at hindex'
    rw [hindex', hindex]
    ring

/-- How far the assets have grown depends on the epoch only. -/
theorem unique (h : Aged ledger ledger') (h' : Aged ledger ledger'')
    (hepoch : ledger'.epoch = ledger''.epoch) : ledger'.assets = ledger''.assets := by
  refine SortedMap.ext_get? fun id => ?_
  cases hentry : ledger.assets.get? id with
  | none => rw [h.unlisted hentry, h'.unlisted hentry]
  | some entry =>
    obtain ⟨index, hindex, hentry'⟩ := h.listed hentry
    obtain ⟨index', hindex', hentry''⟩ := h'.listed hentry
    obtain rfl : index = index' := Signed.ext (by rw [hindex, hindex', hepoch])
    rw [hentry', hentry'']

end Aged

/-- The clock has gone on, and an account has been given so much stalk for what it holds in an
asset: its value there, once for every step that its checkpoint has moved. -/
structure Realizes (id : AccountId) (asset : AssetId) (mown : ℕ) (ledger ledger' : Ledger) : Prop
    extends Aged ledger ledger' where
  stalk : (ledger'.account id).stalk.toNat = (ledger.account id).stalk.toNat + mown
  value : ((ledger'.account id).checkpoint asset).value =
    ((ledger.account id).checkpoint asset).value
  index : (mown : ℤ) = (((ledger'.account id).checkpoint asset).lastIndex.toInt -
      ((ledger.account id).checkpoint asset).lastIndex.toInt) *
    ((ledger.account id).checkpoint asset).value.toNat
  /-- The checkpoints in other assets are the same. -/
  elsewhere : ∀ other, other ≠ asset →
    (ledger'.account id).checkpoints.get? other = (ledger.account id).checkpoints.get? other

/-- What does not depend on when an account was mown: all assets, and of the account its stalk and
its checkpoints. -/
structure SameRealized (id : AccountId) (ledger ledger' : Ledger) : Prop where
  assets : ledger.assets = ledger'.assets
  stalk : (ledger.account id).stalk = (ledger'.account id).stalk
  checkpoints : (ledger.account id).checkpoints = (ledger'.account id).checkpoints

namespace Realizes

variable {mown mown' : ℕ}

/-- Nothing is realized while only time goes by. -/
theorem of_aged (h : Aged ledger ledger') (haccounts : ledger'.accounts = ledger.accounts) :
    Realizes id asset 0 ledger ledger' := by
  have haccount := account_congr haccounts id
  refine ⟨h, ?_, ?_, ?_, fun _ _ => ?_⟩
  · rw [haccount, Nat.add_zero]
  · rw [haccount]
  · rw [haccount, sub_self, Int.zero_mul, Nat.cast_zero]
  · rw [haccount]

/-- **What is realized adds up.** -/
theorem trans (h : Realizes id asset mown ledger ledger')
    (h' : Realizes id asset mown' ledger' ledger'') :
    Realizes id asset (mown + mown') ledger ledger'' := by
  refine ⟨h.toAged.trans h'.toAged, ?_, h'.value.trans h.value, ?_,
    fun other hne => (h'.elsewhere other hne).trans (h.elsewhere other hne)⟩
  · rw [h'.stalk, h.stalk, Nat.add_assoc]
  · rw [Nat.cast_add, h'.index, h.index, h.value]
    ring

/-- **How often an account was mown does not matter**: if it is current at the end, then what it has
realized depends on the epoch only. -/
theorem unique (h : Realizes id asset mown ledger ledger')
    (h' : Realizes id asset mown' ledger ledger'') (hepoch : ledger'.epoch = ledger''.epoch)
    (hcurrent : ledger'.Current id asset) (hcurrent' : ledger''.Current id asset) :
    SameRealized id ledger' ledger'' ∧ mown = mown' := by
  have hassets := h.toAged.unique h'.toAged hepoch
  obtain ⟨account, checkpoint, entry, haccount, -, hcheckpoint, hentry, hindex⟩ := hcurrent
  obtain ⟨account', checkpoint', entry', haccount', -, hcheckpoint', hentry', hindex'⟩ := hcurrent'
  obtain rfl : entry = entry' := Option.some.inj (hentry.symm.trans (hassets ▸ hentry'))
  have hself := account_of_get? haccount
  have hself' := account_of_get? haccount'
  have hat : (ledger'.account id).checkpoint asset = checkpoint := by
    rw [hself, Account.checkpoint, hcheckpoint, Option.getD_some]
  have hat' : (ledger''.account id).checkpoint asset = checkpoint' := by
    rw [hself', Account.checkpoint, hcheckpoint', Option.getD_some]
  have hvalue := h.value.trans h'.value.symm
  have hmown := h.index
  have hmown' := h'.index
  rw [hat] at hvalue hmown
  rw [hat'] at hvalue hmown'
  rw [hindex] at hmown
  rw [hindex', ← hmown, Nat.cast_inj] at hmown'
  have hsame : checkpoint = checkpoint' := by
    cases checkpoint
    cases checkpoint'
    cases hvalue
    cases hindex.trans hindex'.symm
    rfl
  refine ⟨⟨hassets, Unsigned.ext ?_, SortedMap.ext_get? fun other => ?_⟩, hmown'.symm⟩
  · rw [h.stalk, h'.stalk, hmown']
  · by_cases hother : other = asset
    · rw [hother, hself, hself', hcheckpoint, hcheckpoint', hsame]
    · rw [h.elsewhere other hother, h'.elsewhere other hother]

end Realizes

end Ledger

open Ledger (Aged Realizes SameRealized Ticks)

variable {id : AccountId} {asset : AssetId}

/-- A plain report lets time go by. -/
theorem Ledger.Ticks.aged {epoch : Epoch} (h : Ticks epoch ledger ledger') :
    Aged ledger ledger' := by
  cases h with
  | reached => exact .of_eq rfl rfl
  | @new assets h hassets =>
    refine ⟨Nat.le_of_lt h, fun {other} hnone => ?_, fun {other _} hlisted => ?_⟩
    · rcases SortedMap.get?_of_mapEach hassets other with ⟨-, hnone'⟩ | ⟨_, _, hsome, -⟩
      · exact hnone'
      · cases hnone.symm.trans hsome
    · rcases SortedMap.get?_of_mapEach hassets other with
        ⟨hnone, -⟩ | ⟨entry, _, hentry, hgrow, hentry'⟩
      · cases hnone.symm.trans hlisted
      · obtain rfl := Option.some.inj (hlisted.symm.trans hentry)
        obtain ⟨index, hindex, rfl⟩ := Asset.grow_spec hgrow
        rw [Unsigned.toInt_steps_monus (Nat.le_of_lt h)] at hindex
        exact ⟨index, hindex, hentry'⟩

/-- **No report on the way is needed**: where the assets have got to in some epoch, one report of
that epoch gets them, too. -/
theorem Ledger.Aged.ticks (h : Aged ledger ledger') (hl : ledger.Housed) :
    ∃ ticked, Ticks ledger'.epoch ledger ticked := by
  rcases Nat.lt_or_eq_of_le h.epoch with hlt | heq
  · obtain ⟨assets, hassets⟩ : ∃ assets, ledger.assets.mapEach
        (Asset.grow (ledger'.epoch.monus ledger.epoch).steps) = .ok assets := by
      refine SortedMap.mapEach_succeeds fun _ entry hentry => ?_
      obtain ⟨index, hindex, -⟩ := h.listed hentry
      rw [← Unsigned.toInt_steps_monus h.epoch] at hindex
      exact ⟨_, (Asset.grow_eq_ok (hl.asset hentry) (Int.natCast_nonneg _)).mpr
        ⟨index, hindex, rfl⟩⟩
    exact ⟨_, .new hlt hassets⟩
  · exact ⟨ledger, .reached (Nat.le_of_eq heq.symm)⟩

/-- It gets the clock to the epoch, unless it is there already. -/
theorem Ledger.Ticks.epoch_eq {epoch : Epoch} (h : Ticks epoch ledger ledger')
    (hle : ledger.epoch ≤ epoch) : ledger'.epoch = epoch := by
  cases h with
  | reached h => exact Unsigned.ext (Nat.le_antisymm hle h)
  | new => rfl

theorem Ledger.Ticks.realizes {epoch : Epoch} (h : Ticks epoch ledger ledger') :
    Realizes id asset 0 ledger ledger' :=
  .of_aged h.aged (by cases h <;> rfl)

/-- Updating an account changes its flood share and its last update. -/
theorem account_of_update {out : Outcome Unit} (h : updateAccount id ledger = .ok out) :
    ∃ flood lastUpdate, out.ledger.account id = { ledger.account id with flood, lastUpdate } := by
  rcases updateAccount_eq_ok.mp h with ⟨-, rfl⟩ | ⟨-, flood, -, rfl⟩
  · exact ⟨_, _, (Ledger.account_withAccount ..).trans (if_pos rfl)⟩
  · exact ⟨flood, _, (Ledger.account_withAccount ..).trans (if_pos rfl)⟩

/-- **A mowing realizes** what it returns. -/
theorem mow_realizes {out : Outcome Amount} (h : mow id asset ledger = .ok out) :
    Realizes id asset out.result.toNat ledger out.ledger := by
  have haged : Aged ledger out.ledger := by
    obtain ⟨accounts, totals, hframe⟩ := mow_frame h
    rw [hframe]
    exact .of_eq rfl rfl
  obtain ⟨updated, hupdate, hgrowth⟩ := mow_stages h
  obtain ⟨entry, grown, minted, -, hgrown, hmint, rfl⟩ := creditGrowth_spec hgrowth
  obtain ⟨-, -, hreward⟩ := grownReward_eq_ok.mp hgrown
  obtain ⟨flood, lastUpdate, hupdated⟩ := account_of_update hupdate
  obtain ⟨stalk', roots', hstalk, hminted⟩ := account_of_mint hmint
  rw [Ledger.account_withAccount, if_pos rfl, hupdated] at hminted hstalk
  rw [hupdated] at hreward
  have hcheckpoint : (minted.ledger.account id).checkpoint asset =
      { (ledger.account id).checkpoint asset with lastIndex := entry.accrualIndex } := by
    rw [hminted]
    exact (Account.checkpoint_withCheckpoint ..).trans (if_pos rfl)
  refine ⟨haged, ?_, ?_, ?_, fun other hne => ?_⟩
  · rw [hminted]
    exact hstalk
  · rw [hcheckpoint]
  · rw [hcheckpoint]
    exact hreward
  · rw [hminted]
    exact SortedMap.get?_insert_of_ne _ hne _

/-! ### On a vault -/

/-- A plain report as a call. -/
abbrev Call.tick (epoch : Epoch) : Call := .advanceEpoch (.plain epoch)

/-- What a schedule for an account in an asset is made of: plain reports of epochs, and mowings. -/
inductive Occasion
  | tick (epoch : Epoch)
  | mow

/-- An occasion as a request. -/
def Occasion.request (id : AccountId) (asset : AssetId) : Occasion → Request
  | .tick epoch => .call (.tick epoch)
  | .mow => .call (.mow id asset)

namespace Reply

/-- The call succeeded. -/
def Answered (reply : Reply) : Prop := ∃ answer, reply.result = .ok answer

instance (reply : Reply) : Decidable reply.Answered :=
  match h : reply.result with
  | .ok answer => .isTrue ⟨answer, h⟩
  | .error _ => .isFalse fun ⟨_, hanswer⟩ => nomatch h.symm.trans hanswer

/-- The amount that was answered; nothing, if the answer is no amount. -/
def amount (reply : Reply) : ℕ :=
  match reply.result with
  | .ok (.amount amount) => amount.toNat
  | _ => 0

end Reply

namespace Vault

variable {vault : Vault} {epoch : Epoch}

/-- A plain report that is answered has led where it leads to, -/
theorem tick_of_answered (hentered : vault.entered = false)
    (h : (serve (.tick epoch) vault).1.Answered) :
    Ticks epoch vault.ledger (serve (.tick epoch) vault).2.ledger := by
  obtain ⟨answer, hanswer⟩ := h
  rw [serve] at hanswer ⊢
  obtain ⟨out, hadvance, hledger, -⟩ := (transact_changed hentered).answered hanswer
  exact advanceEpoch_plain.mp ⟨out, hadvance, hledger.symm⟩

/-- and one that leads somewhere is answered. -/
theorem answered_of_tick (hentered : vault.entered = false) (h : Ticks epoch vault.ledger ledger') :
    (serve (.tick epoch) vault).1.Answered ∧
      ∃ log, (serve (.tick epoch) vault).2 = { vault with ledger := ledger', log } := by
  obtain ⟨out, hadvance, rfl⟩ := advanceEpoch_plain.mpr h
  rw [serve, transact_of_ok hentered hadvance]
  exact ⟨⟨_, rfl⟩, _, rfl⟩

/-- **What a request of the schedule realizes**: as much as is answered. -/
theorem occasion_realizes (hentered : vault.entered = false) (occasion : Occasion)
    (h : (handle (occasion.request id asset) vault).1.Answered) :
    Realizes id asset (handle (occasion.request id asset) vault).1.amount vault.ledger
      (handle (occasion.request id asset) vault).2.ledger := by
  cases occasion with
  | tick epoch =>
    have hticks := tick_of_answered hentered h
    obtain ⟨out, hadvance, -⟩ := advanceEpoch_plain.mpr hticks
    have hzero : (serve (.tick epoch) vault).1.amount = 0 := by
      rw [serve, transact_of_ok hentered hadvance]
      rfl
    show Realizes id asset (serve (.tick epoch) vault).1.amount vault.ledger _
    rw [hzero]
    exact hticks.realizes
  | mow =>
    obtain ⟨answer, hanswer⟩ := h
    obtain ⟨mown, hmow, hserved⟩ := mow_committed hentered hanswer
    show Realizes id asset (serve (.mow id asset) vault).1.amount vault.ledger
      (serve (.mow id asset) vault).2.ledger
    rw [hserved]
    exact mow_realizes hmow

/-- **What a schedule realizes**: all that is answered. -/
theorem schedule_realizes (hentered : vault.entered = false) (schedule : List Occasion)
    (h : ∀ reply ∈ (run (schedule.map (·.request id asset)) vault).1, reply.Answered) :
    Realizes id asset ((run (schedule.map (·.request id asset)) vault).1.map Reply.amount).sum
      vault.ledger (run (schedule.map (·.request id asset)) vault).2.ledger := by
  induction schedule generalizing vault with
  | nil => exact .of_aged (.of_eq rfl rfl) rfl
  | cons occasion schedule ih =>
    have hfirst := occasion_realizes hentered occasion (h _ List.mem_cons_self)
    have hentered' := (handle_transition hentered (occasion.request id asset)).2
    exact hfirst.trans (ih hentered' fun reply hreply => h reply (List.mem_cons_of_mem _ hreply))

/-- A mowing that is answered leaves the account current, in the same epoch. -/
theorem current_of_answered (hentered : vault.entered = false)
    (h : (serve (.mow id asset) vault).1.Answered) :
    Realizes id asset (serve (.mow id asset) vault).1.amount vault.ledger
        (serve (.mow id asset) vault).2.ledger ∧
      (serve (.mow id asset) vault).2.ledger.epoch = vault.ledger.epoch ∧
      (serve (.mow id asset) vault).2.ledger.Current id asset := by
  refine ⟨occasion_realizes hentered .mow h, ?_⟩
  obtain ⟨answer, hanswer⟩ := h
  obtain ⟨mown, hmow, hserved⟩ := mow_committed hentered hanswer
  obtain ⟨hmoves, hcurrent⟩ := mow_moves hmow
  rw [hserved]
  exact ⟨hmoves.keeps.epoch, hcurrent⟩

/-- **Mowing now and then is mowing once**: it does not matter what has been realized while the
clock got to an epoch, if the account is mown then. -/
theorem mow_eq_once {course : Vault} {mown : ℕ} (hentered : vault.entered = false)
    (hl : vault.ledger.Housed) (hcourse : Realizes id asset mown vault.ledger course.ledger)
    (hentered' : course.entered = false) (hepoch : course.ledger.epoch = epoch)
    (heager : (serve (.mow id asset) course).1.Answered) :
    let eager := serve (.mow id asset) course
    let tick := serve (.tick epoch) vault
    let lazy := serve (.mow id asset) tick.2
    tick.1.Answered ∧ (lazy.1.Answered →
      SameRealized id eager.2.ledger lazy.2.ledger ∧ mown + eager.1.amount = lazy.1.amount) := by
  intro eager tick lazy
  obtain ⟨ticked, hticks⟩ := hcourse.toAged.ticks hl
  rw [hepoch] at hticks
  refine ⟨(answered_of_tick hentered hticks).1, fun hlazy => ?_⟩
  have hentered'' : tick.2.entered = false := (handle_transition hentered (.call (.tick epoch))).2
  obtain ⟨hearly, hsame, hcurrent⟩ := current_of_answered hentered' heager
  obtain ⟨hlate, hsame', hcurrent'⟩ := current_of_answered hentered'' hlazy
  have hticks' : Ticks epoch vault.ledger tick.2.ledger :=
    tick_of_answered hentered (answered_of_tick hentered hticks).1
  have hticked : Realizes id asset 0 vault.ledger tick.2.ledger := hticks'.realizes
  have honce := hticked.trans hlate
  rw [Nat.zero_add] at honce
  refine (hcourse.trans hearly).unique honce ?_ hcurrent hcurrent'
  -- The clock has not gone back, so that the report has got it to the epoch, too.
  have hreached := hticks'.epoch_eq (hepoch ▸ hcourse.epoch)
  rw [hsame, hepoch, hsame', hreached]

/-- **Reporting two epochs is reporting the later one**, as long as there is no flood. -/
theorem tick_twice (hentered : vault.entered = false) (hl : vault.ledger.Housed)
    (hflood : vault.ledger.floodBook.active = none) {first last : Epoch} (hle : first ≤ last) :
    let early := serve (.tick first) vault
    let twice := serve (.tick last) early.2
    let once := serve (.tick last) vault
    (early.1.Answered ∧ twice.1.Answered ↔ once.1.Answered) ∧
      (once.1.Answered → twice.2 = { once.2 with log := twice.2.log }) := by
  intro early twice once
  have hentered' : early.2.entered = false :=
    (handle_transition hentered (.call (.tick first))).2
  -- One report that is answered can be told in two.
  have htold (honce : once.1.Answered) : early.1.Answered ∧ twice.1.Answered ∧
      twice.2 = { once.2 with log := twice.2.log } := by
    have hticks := tick_of_answered hentered honce
    obtain ⟨between, hfirst, hlast⟩ := (Ticks.comp_iff hl hflood hle).mpr hticks
    obtain ⟨hearly, _, hvault⟩ := answered_of_tick hentered hfirst
    have hbetween : early.2.ledger = between := congrArg Vault.ledger hvault
    obtain ⟨htwice, _, hvault'⟩ := answered_of_tick hentered' (hbetween ▸ hlast)
    obtain ⟨-, _, hvault''⟩ := answered_of_tick hentered hticks
    refine ⟨hearly, htwice, ?_⟩
    show twice.2 = _
    rw [hvault', hvault, hvault'']
  refine ⟨⟨fun ⟨hearly, htwice⟩ => ?_, fun honce => ⟨(htold honce).1, (htold honce).2.1⟩⟩,
    fun honce => (htold honce).2.2⟩
  have hfirst := tick_of_answered hentered hearly
  have hlast := tick_of_answered hentered' htwice
  exact (answered_of_tick hentered ((Ticks.comp_iff hl hflood hle).mp ⟨_, hfirst, hlast⟩)).1

/-- **Realizing late is realizing early.**  After any requests to a new vault, take any schedule of
plain reports and mowings of an account in an asset that gets the clock to an epoch and is followed
by a last mowing; and instead of it, one report of the epoch and one mowing.  If all of the first
are answered, so is the one report; and if the one mowing is, too, both ways leave the same assets,
and the account with the same stalk and the same checkpoints, and the mowings come to the same
amount.  And as long as there is no flood, two reports are answered exactly if the later one alone
is, and leave the same vault but for the log. -/
theorem lazy_realization {charter : Charter} {start : Vault} (h : genesis charter = .ok start)
    (requests : List Request) :
    let vault := (run requests start).2
    (∀ (id : AccountId) (asset : AssetId) (target : Epoch) (schedule : List Occasion),
      let course := run (schedule.map (Occasion.request id asset)) vault
      let eager := serve (.mow id asset) course.2
      let tick := serve (.tick target) vault
      let lazy := serve (.mow id asset) tick.2
      (∀ reply ∈ course.1, reply.Answered) → course.2.ledger.epoch = target → eager.1.Answered →
        tick.1.Answered ∧ (lazy.1.Answered → SameRealized id eager.2.ledger lazy.2.ledger ∧
          (course.1.map Reply.amount).sum + eager.1.amount = lazy.1.amount)) ∧
    (vault.ledger.floodBook.active = none → ∀ first last : Epoch, first ≤ last →
      let early := serve (.tick first) vault
      let twice := serve (.tick last) early.2
      let once := serve (.tick last) vault
      (early.1.Answered ∧ twice.1.Answered ↔ once.1.Answered) ∧
        (once.1.Answered → twice.2 = { once.2 with log := twice.2.log })) := by
  intro vault
  obtain ⟨ho, hentered⟩ := orderly h requests
  refine ⟨?_, fun hflood first last => tick_twice hentered ho.consistent.housed hflood⟩
  intro id asset target schedule course eager tick lazy hcourse hepoch heager
  exact mow_eq_once hentered ho.consistent.housed (schedule_realizes hentered schedule hcourse)
    (run_entered _ hentered) hepoch heager

/-- Account 7 is mown in epoch 14 and again in epoch 16, and gets the 408 that one mowing in epoch
16 gives. -/
theorem lazy_realization_sample : genesis ⟨10, 10, 0, 9⟩ = .ok sample ∧
    let vault := (run sampleRequests sample).2
    let schedule : List Occasion := [.tick 14, .mow, .tick 12, .tick 16]
    let course := run (schedule.map (Occasion.request 7 1)) vault
    let eager := serve (.mow 7 1) course.2
    let tick := serve (.tick 16) vault
    let lazy := serve (.mow 7 1) tick.2
    let early := serve (.tick 14) vault
    let twice := serve (.tick 16) early.2
    (∀ reply ∈ course.1, reply.Answered) ∧ course.2.ledger.epoch = 16 ∧ eager.1.Answered ∧
      lazy.1.Answered ∧ SameRealized 7 eager.2.ledger lazy.2.ledger ∧
      (course.1.map Reply.amount).sum + eager.1.amount = lazy.1.amount ∧ lazy.1.amount = 408 ∧
      vault.ledger.floodBook.active = none ∧ tick.1.Answered ∧ early.1.Answered ∧ twice.1.Answered ∧
      twice.2 = { tick.2 with log := twice.2.log } := by
  obtain ⟨hrealized, htold⟩ := lazy_realization genesis_sample sampleRequests
  have hcourse : ∀ reply ∈ (run ([Occasion.tick 14, .mow, .tick 12, .tick 16].map
      (Occasion.request 7 1)) (run sampleRequests sample).2).1, reply.Answered := by decide +kernel
  have hepoch : (run ([Occasion.tick 14, .mow, .tick 12, .tick 16].map
      (Occasion.request 7 1)) (run sampleRequests sample).2).2.ledger.epoch = 16 := by
    decide +kernel
  have heager : (serve (.mow 7 1) (run ([Occasion.tick 14, .mow, .tick 12, .tick 16].map
      (Occasion.request 7 1)) (run sampleRequests sample).2).2).1.Answered := by decide +kernel
  have hlazy : (serve (.mow 7 1)
      (serve (.tick 16) (run sampleRequests sample).2).2).1.Answered := by decide +kernel
  have hamount : (serve (.mow 7 1)
      (serve (.tick 16) (run sampleRequests sample).2).2).1.amount = 408 := by decide +kernel
  have hflood : (run sampleRequests sample).2.ledger.floodBook.active = none := by decide +kernel
  obtain ⟨htick, hsame⟩ := hrealized 7 1 16 _ hcourse hepoch heager
  obtain ⟨hiff, hvault⟩ := htold hflood 14 16 (by decide)
  obtain ⟨hearly, htwice⟩ := hiff.mpr htick
  exact ⟨genesis_sample, hcourse, hepoch, heager, hlazy, (hsame hlazy).1, (hsame hlazy).2, hamount,
    hflood, htick, hearly, htwice, hvault htick⟩

end Vault

end StalkLedger
