import StalkLedger.Proofs.Stages
import StalkLedger.Proofs.Housed

/-!
# Plain reports

A plain report says that an epoch has come, and nothing else.  It need not come in every epoch: what
matters is how far the clock has got, not how often it was looked at.

* **Growing in parts** (`Asset.grow_grow`).  An index that grows over some epochs and then over some
  more grows as over all of them; and since it never falls, the second part overflows exactly if the
  whole does.  So do the indices of all assets (`SortedMap.mapEach_mapEach`).
* **What a plain report leads to** (`Ledger.Ticks`, `Action.advanceEpoch_plain`): the assets grow,
  and a flood is over if there was one.

So two plain reports are one (`Ledger.Ticks.comp_iff`), unless there is a flood that the first would
end too early.
-/

namespace StalkLedger

open StalkLedger.Action

/-! ### Growing in parts -/

namespace Asset

variable {entry grown : Asset}

/-- Where neither index nor rate is negative, growing fails only if the index gets out of range. -/
theorem grow_eq_ok (hs : entry.Sound) {elapsed : Index} (hnn : 0 ≤ elapsed.toInt) :
    entry.grow elapsed = .ok grown ↔ ∃ index : Index,
      index.toInt = entry.accrualIndex.toInt + entry.accrualRate.toInt * elapsed.toInt ∧
        grown = { entry with accrualIndex := index } := by
  refine ⟨grow_spec, ?_⟩
  rintro ⟨index, hindex, rfl⟩
  have hgrowth : 0 ≤ entry.accrualRate.toInt * elapsed.toInt := Int.mul_nonneg hs.accrualRate hnn
  have hstart := hs.accrualIndex
  have hlt := index.toInt_lt
  simp only [grow, bind_eq_ok, Signed.mul_eq_ok, Signed.add_eq_ok, StalkLedger.pure_eq_ok]
  exact ⟨⟨_, by omega, by omega⟩, rfl, index, hindex, rfl⟩

/-- **Growing in two parts is growing at once.** -/
theorem grow_grow (hs : entry.Sound) {first rest whole : Index} (hfirst : 0 ≤ first.toInt)
    (hrest : 0 ≤ rest.toInt) (hwhole : whole.toInt = first.toInt + rest.toInt) :
    (∃ between, entry.grow first = .ok between ∧ between.grow rest = .ok grown) ↔
      entry.grow whole = .ok grown := by
  rw [grow_eq_ok hs (by omega), hwhole, Int.mul_add, ← Int.add_assoc]
  constructor
  · rintro ⟨between, hbetween, hgrown⟩
    obtain ⟨middle, hmiddle, rfl⟩ := grow_spec hbetween
    obtain ⟨index, hindex, rfl⟩ := grow_spec hgrown
    exact ⟨index, hmiddle ▸ hindex, rfl⟩
  · rintro ⟨index, hindex, rfl⟩
    have hgrowth : 0 ≤ entry.accrualRate.toInt * first.toInt := Int.mul_nonneg hs.accrualRate hfirst
    have hmore : 0 ≤ entry.accrualRate.toInt * rest.toInt := Int.mul_nonneg hs.accrualRate hrest
    have hstart := hs.accrualIndex
    have hlt := index.toInt_lt
    -- The index between the two is no larger than the last one.
    let middle : Index :=
      ⟨entry.accrualIndex.toInt + entry.accrualRate.toInt * first.toInt, by omega, by omega⟩
    have hmiddle : (0 : ℤ) ≤ middle.toInt := Int.add_nonneg hstart hgrowth
    have hsound : { entry with accrualIndex := middle }.Sound :=
      ⟨hs.stalkPerValue, hs.accrualRate, hmiddle, hs.legacyRate⟩
    exact ⟨_, (grow_eq_ok hs hfirst).mpr ⟨middle, rfl, rfl⟩,
      (grow_eq_ok hsound hrest).mpr ⟨index, hindex, rfl⟩⟩

end Asset

section MapEach

variable {κ α ε : Type} [Key κ] {f g whole : α → Except ε α}

omit [Key κ] in
/-- Two changes of every value are one, if they are one on each value that is there. -/
theorem Entries.mapEach_mapEach {es es' : List (κ × α)}
    (h : ∀ e ∈ es, ∀ c, (∃ b, f e.2 = .ok b ∧ g b = .ok c) ↔ whole e.2 = .ok c) :
    (∃ between, mapEach f es = .ok between ∧ mapEach g between = .ok es') ↔
      mapEach whole es = .ok es' := by
  induction es generalizing es' with
  | nil => exact ⟨fun ⟨_, hf, hg⟩ => by cases hf; exact hg, fun hw => ⟨[], rfl, hw⟩⟩
  | cons e es ih =>
    have hhead := h e List.mem_cons_self
    have htail (r' : List (κ × α)) := @ih r' fun e he => h e (List.mem_cons_of_mem _ he)
    simp only [mapEach_cons_eq_ok]
    constructor
    · rintro ⟨_, ⟨b, r, hb, hr, rfl⟩, hg⟩
      obtain ⟨c, r', hc, hr', rfl⟩ := mapEach_cons_eq_ok.mp hg
      exact ⟨c, r', (hhead c).mp ⟨b, hb, hc⟩, (htail r').mp ⟨r, hr, hr'⟩, rfl⟩
    · rintro ⟨c, r', hc, hr', rfl⟩
      obtain ⟨b, hb, hc⟩ := (hhead c).mpr hc
      obtain ⟨r, hr, hr'⟩ := (htail r').mpr hr'
      exact ⟨_, ⟨b, r, hb, hr, rfl⟩, mapEach_cons_eq_ok.mpr ⟨c, r', hc, hr', rfl⟩⟩

omit [Key κ] in
/-- A change that fails on no value succeeds. -/
theorem Entries.mapEach_succeeds {es : List (κ × α)} (h : ∀ e ∈ es, ∃ b, f e.2 = .ok b) :
    ∃ es', mapEach f es = .ok es' := by
  induction es with
  | nil => exact ⟨[], rfl⟩
  | cons e es ih =>
    obtain ⟨b, hb⟩ := h e List.mem_cons_self
    obtain ⟨r, hr⟩ := ih fun e he => h e (List.mem_cons_of_mem _ he)
    exact ⟨_, mapEach_cons_eq_ok.mpr ⟨b, r, hb, hr, rfl⟩⟩

namespace SortedMap

variable {m m' : SortedMap κ α}

/-- A map is changed value by value as the list of its entries is. -/
theorem mapEach_eq_ok : m.mapEach f = .ok m' ↔ Entries.mapEach f m.entries = .ok m'.entries := by
  unfold mapEach
  split
  next es hes =>
    simp only [hes, Except.ok.injEq]
    exact ⟨fun h => h ▸ rfl, fun h => ext_entries h⟩
  next fault hfault =>
    simp only [hfault, reduceCtorEq]

/-- So two changes of a map are one, if they are one on each value that is there, -/
theorem mapEach_mapEach
    (h : ∀ k a, m.get? k = some a → ∀ c, (∃ b, f a = .ok b ∧ g b = .ok c) ↔ whole a = .ok c) :
    (∃ between, m.mapEach f = .ok between ∧ between.mapEach g = .ok m') ↔
      m.mapEach whole = .ok m' := by
  have hentries := @Entries.mapEach_mapEach _ _ _ f g whole m.entries m'.entries fun e he =>
    h e.1 e.2 (mem_entries_iff.mp he)
  simp only [mapEach_eq_ok]
  rw [← hentries]
  constructor
  · rintro ⟨between, hf, hg⟩
    exact ⟨between.entries, hf, hg⟩
  · rintro ⟨between, hf, hg⟩
    exact ⟨⟨between, m.ascending.of_mapEach hf⟩, hf, hg⟩

/-- and a change of a map succeeds, if it fails on no value. -/
theorem mapEach_succeeds (h : ∀ k a, m.get? k = some a → ∃ b, f a = .ok b) :
    ∃ m', m.mapEach f = .ok m' := by
  obtain ⟨es, hes⟩ := Entries.mapEach_succeeds fun e he => h e.1 e.2 (mem_entries_iff.mp he)
  exact ⟨⟨es, m.ascending.of_mapEach hes⟩, mapEach_eq_ok.mpr hes⟩

end SortedMap

end MapEach

/-! ### Plain reports -/

/-- The steps from one epoch to another. -/
theorem Unsigned.toInt_steps_monus {epoch epoch' : Epoch} (h : epoch ≤ epoch') :
    (epoch'.monus epoch).steps.toInt = (epoch'.toNat : ℤ) - epoch.toNat :=
  Int.natCast_sub h

/-- A report of an epoch and of nothing else: no flood, no payout and no reward. -/
def EpochReport.plain (epoch : Epoch) : EpochReport := ⟨epoch, false, 0, 0⟩

/-- The book once no flood is reported any more. -/
def FloodBook.ended (book : FloodBook) (epoch : Epoch) : FloodBook :=
  match book.active with
  | none => book
  | some start => book.closed start epoch

/-- Where no flood is on, none ends. -/
theorem FloodBook.ended_of_calm {book : FloodBook} (h : book.active = none) (epoch : Epoch) :
    book.ended epoch = book := by
  rw [FloodBook.ended, h]

/-- What a plain report leads to: nothing, if the epoch has been reached; else all assets grow, and
the flood is over if there was one. -/
inductive Ledger.Ticks (epoch : Epoch) : Ledger → Ledger → Prop
  | reached {ledger} (h : epoch ≤ ledger.epoch) : Ticks epoch ledger ledger
  | new {ledger assets} (h : ledger.epoch < epoch)
      (hassets : ledger.assets.mapEach (Asset.grow (epoch.monus ledger.epoch).steps) = .ok assets) :
      Ticks epoch ledger
        { ledger with assets, epoch, floodBook := ledger.floodBook.ended epoch }

variable {ledger ledger' : Ledger}

namespace Action

theorem receiveReward_zero (ledger : Ledger) : receiveReward 0 ledger = .ok ⟨(), ledger, ∅⟩ := rfl

/-- A report without a flood ends the one that is on, if there is one. -/
theorem turnFlood_false (ledger : Ledger) : ∃ events, turnFlood false ledger =
    .ok ⟨(), { ledger with floodBook := ledger.floodBook.ended ledger.epoch }, events⟩ := by
  cases hactive : ledger.floodBook.active with
  | none =>
    refine ⟨∅, ledger_bind.mpr ?_⟩
    rw [FloodBook.ended, hactive]
    rfl
  | some start =>
    refine ⟨⟨[.floodEnded start ledger.epoch]⟩, ledger_bind.mpr ?_⟩
    rw [FloodBook.ended, hactive]
    refine ledger_bind.mpr ?_
    rw [hactive]
    exact setFloodBook_bind.mpr rfl

/-- **A plain report** succeeds exactly if there is a ledger that it leads to. -/
theorem advanceEpoch_plain {epoch : Epoch} :
    (∃ out, advanceEpoch (.plain epoch) ledger = .ok out ∧ out.ledger = ledger') ↔
      ledger.Ticks epoch ledger' := by
  constructor
  · rintro ⟨out, h, rfl⟩
    have hadvance := ledger_bind.mp h
    split at hadvance
    next hreached =>
      obtain rfl := pure_eq_ok.mp hadvance
      exact .reached hreached
    next hnew =>
      obtain ⟨assets, hassets, h₁⟩ := lift_bind.mp hadvance
      obtain ⟨_, h₂, rfl⟩ := emit_bind.mp (update_bind.mp h₁)
      obtain ⟨turned, _, hturn, h₃, rfl⟩ :=
        bind_apply_ok.mp ((bind_of_silent (receiveReward_zero _)).mp h₂)
      obtain ⟨events, hended⟩ := turnFlood_false { ledger with assets, epoch }
      obtain rfl := Except.ok.inj (hended.symm.trans hturn)
      obtain rfl := pure_eq_ok.mp h₃
      exact .new (Nat.not_le.mp hnew) hassets
  · intro h
    cases h with
    | reached h =>
      have hreached : (EpochReport.plain epoch).epoch ≤ ledger.epoch := h
      refine ⟨⟨false, ledger, ∅⟩, ledger_bind.mpr ?_, rfl⟩
      rw [if_pos hreached]
      rfl
    | @new assets h hassets =>
      have hnew : ¬(EpochReport.plain epoch).epoch ≤ ledger.epoch := Nat.not_le.mpr h
      obtain ⟨events, hended⟩ := turnFlood_false { ledger with assets, epoch }
      refine ⟨⟨true, _, ⟨[.epochAdvanced ledger.epoch epoch]⟩ ++ (events ++ ∅)⟩,
        ledger_bind.mpr ?_, rfl⟩
      rw [if_neg hnew]
      refine lift_bind.mpr ⟨assets, hassets, update_bind.mpr (emit_bind.mpr
        ⟨⟨true, _, events ++ ∅⟩, ?_, rfl⟩)⟩
      exact (bind_of_silent (receiveReward_zero _)).mpr
        (bind_apply_ok.mpr ⟨_, ⟨true, _, ∅⟩, hended, rfl, rfl⟩)

end Action

namespace Ledger

/-! ### Reports in parts -/

/-- Without a flood, what a new report changes are the assets and the epoch. -/
theorem Ticks.calm (hflood : ledger.floodBook.active = none) {epoch : Epoch}
    {assets : SortedMap AssetId Asset} (hlt : ledger.epoch < epoch)
    (hassets : ledger.assets.mapEach (Asset.grow (epoch.monus ledger.epoch).steps) = .ok assets) :
    Ticks epoch ledger { ledger with assets, epoch } := by
  have hticks := Ticks.new hlt hassets
  rwa [FloodBook.ended_of_calm hflood] at hticks

/-- **Two reports are one**, if there is no flood that the first would end too early. -/
theorem Ticks.comp_iff (hl : ledger.Housed) (hflood : ledger.floodBook.active = none)
    {first last : Epoch} (hle : first ≤ last) :
    (∃ between, Ticks first ledger between ∧ Ticks last between ledger') ↔
      Ticks last ledger ledger' := by
  -- The epochs up to the first report and those between the two are all epochs up to the last.
  have hgrow (hlt : ledger.epoch < first) {assets : SortedMap AssetId Asset} :
      (∃ between,
        ledger.assets.mapEach (Asset.grow (first.monus ledger.epoch).steps) = .ok between ∧
        between.mapEach (Asset.grow (last.monus first).steps) = .ok assets) ↔
          ledger.assets.mapEach (Asset.grow (last.monus ledger.epoch).steps) = .ok assets := by
    refine SortedMap.mapEach_mapEach fun _ entry hentry grown => Asset.grow_grow (hl.asset hentry)
      (Int.natCast_nonneg _) (Int.natCast_nonneg _) ?_
    rw [Unsigned.toInt_steps_monus (Nat.le_of_lt hlt), Unsigned.toInt_steps_monus hle,
      Unsigned.toInt_steps_monus (Nat.le_trans (Nat.le_of_lt hlt) hle)]
    ring
  constructor
  · rintro ⟨between, h, h'⟩
    cases h with
    | reached h => exact h'
    | new hlt hassets =>
      rw [FloodBook.ended_of_calm hflood] at h'
      cases h' with
      | reached h' =>
        obtain rfl : first = last := Unsigned.ext (Nat.le_antisymm hle h')
        exact .calm hflood hlt hassets
      | new hlt' hassets' =>
        rw [FloodBook.ended_of_calm hflood]
        exact .calm hflood (Nat.lt_trans hlt hlt') ((hgrow hlt).mp ⟨_, hassets, hassets'⟩)
  · intro h
    cases h with
    | reached h => exact ⟨ledger, .reached (Nat.le_trans hle h), .reached h⟩
    | new hlt hassets =>
      rw [FloodBook.ended_of_calm hflood]
      rcases Nat.lt_or_ge ledger.epoch.toNat first.toNat with hfirst | hfirst
      · rcases Nat.lt_or_eq_of_le hle with hlast | hsame
        · obtain ⟨between, hbetween, hassets'⟩ := (hgrow hfirst).mpr hassets
          exact ⟨_, .calm hflood hfirst hbetween,
            @Ticks.calm { ledger with assets := between, epoch := first } hflood _ _ hlast hassets'⟩
        · obtain rfl := Unsigned.ext hsame
          exact ⟨_, .calm hflood hlt hassets, .reached (Nat.le_refl _)⟩
      · exact ⟨ledger, .reached hfirst, .calm hflood hlt hassets⟩

end Ledger

end StalkLedger
