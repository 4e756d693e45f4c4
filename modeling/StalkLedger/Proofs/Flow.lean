import StalkLedger.Proofs.Move
import StalkLedger.Proofs.Stages

/-!
# The flows keep the books in balance

Each flow of an account is a sequence of moves whose imbalances cancel.  Realizing an account mints
what its positions have grown (`mow_moves`).  What enters a position then mints its stalk, and what
removes one burns it, at the index of the position: `entering` and `retiring` are the two halves that
deposits, withdrawals, conversions, imports and planting are made of.  A transfer hands over what it
would have burned (`transfer_moves`), and a migration moves nothing between accounts
(`migrate_moves`).
-/

namespace StalkLedger

open StalkLedger.Action Imbalance

/-! ### Sums of imbalances -/

namespace Imbalance

@[simp] theorem due_zero (id : AccountId) : due id 0 = 0 := by
  rw [due, Pi.single_zero]
  rfl

@[simp] theorem unbooked_zero (id : AccountId) (asset : AssetId) : unbooked id asset 0 = 0 := by
  rw [unbooked, Pi.single_zero]
  rfl

@[simp] theorem unpooled_zero : unpooled 0 = 0 := rfl

/-- Stalk that no position backs adds up, -/
theorem due_add (id : AccountId) (x y : ℤ) : due id (x + y) = due id x + due id y := by
  rw [due, Pi.single_add, due, due, Prod.mk_add_mk, Prod.mk_add_mk, add_zero, add_zero]

/-- and so do value that no position has -/
theorem unbooked_add (id : AccountId) (asset : AssetId) (x y : ℤ) :
    unbooked id asset (x + y) = unbooked id asset x + unbooked id asset y := by
  rw [unbooked, Pi.single_add, unbooked, unbooked, Prod.mk_add_mk, Prod.mk_add_mk, add_zero,
    add_zero]

/-- and stalk that is in no account and in no pool. -/
theorem unpooled_add (x y : ℤ) : unpooled (x + y) = unpooled x + unpooled y := by
  rw [unpooled, unpooled, unpooled, Prod.mk_add_mk, Prod.mk_add_mk, add_zero, add_zero]

end Imbalance

/-- What some values count at their indices: each its value, once per step of its index. -/
def indexed (entries : List (Index × Amount)) : ℤ :=
  (entries.map fun e => e.1.toInt * (e.2.toNat : ℤ)).sum

/-- The sum of some values. -/
def valued (entries : List (Index × Amount)) : ℤ := (entries.map fun e => (e.2.toNat : ℤ)).sum

@[simp] theorem indexed_nil : indexed [] = 0 := rfl

@[simp] theorem valued_nil : valued [] = 0 := rfl

@[simp] theorem indexed_cons (e : Index × Amount) (entries : List (Index × Amount)) :
    indexed (e :: entries) = e.1.toInt * e.2.toNat + indexed entries := by
  rw [indexed, List.map_cons, List.sum_cons, indexed]

@[simp] theorem valued_cons (e : Index × Amount) (entries : List (Index × Amount)) :
    valued (e :: entries) = e.2.toNat + valued entries := by
  rw [valued, List.map_cons, List.sum_cons, valued]

variable {ledger : Ledger}

/-! ### Stalk -/

/-- Minting leaves an account with stalk that no position backs; -/
theorem mintStalk_moves {id : AccountId} {stalk : Amount} {out : Outcome Amount}
    (hu : ledger.Updated id) (h : mintStalk id stalk ledger = .ok out) :
    Moves ledger (due id stalk.toNat) out.events out.ledger := by
  by_cases hs : stalk = 0
  · subst hs
    cases h
    exact Moves.refl.of_eq (due_zero id).symm
  · exact .single (.mint hu hs h)

/-- burning leaves as much missing. -/
theorem burnStalk_moves {id : AccountId} {stalk : Amount} {out : Outcome Amount}
    (hu : ledger.Updated id) (h : burnStalk id stalk ledger = .ok out) :
    Moves ledger (due id (-stalk.toNat)) out.events out.ledger := by
  by_cases hs : stalk = 0
  · subst hs
    cases h
    exact Moves.refl.of_eq (due_zero id).symm
  · exact .single (.burn hu hs h)

/-- Handing stalk over leaves it missing with the sender, and without backing with the recipient. -/
theorem transferStalk_moves {sender recipient : AccountId} {stalk : Amount} {out : Outcome Amount}
    (hu : ledger.Updated sender) (hu' : ledger.Updated recipient)
    (h : transferStalk sender recipient stalk ledger = .ok out) :
    Moves ledger (due sender (-stalk.toNat) + due recipient stalk.toNat) out.events out.ledger := by
  by_cases hs : stalk = 0
  · subst hs
    cases h
    exact Moves.refl.of_eq (by rw [show -((0 : Amount).toNat : ℤ) = 0 from rfl, due_zero,
      show ((0 : Amount).toNat : ℤ) = 0 from rfl, due_zero, add_zero])
  · exact .single (.handOver hu hu' hs h)

/-! ### Mowing -/

/-- After an update the account is up to date. -/
theorem updateAccount_updated {id : AccountId} {out : Outcome Unit}
    (h : updateAccount id ledger = .ok out) : out.ledger.Updated id := by
  rcases updateAccount_eq_ok.mp h with ⟨hle, rfl⟩ | ⟨hlt, flood, -, rfl⟩
  · exact ⟨_, SortedMap.get?_insert_self .., hle⟩
  · exact ⟨_, SortedMap.get?_insert_self .., Nat.le_refl _⟩

/-- Growth is minted as the checkpoint moves to the tip, so the books stay in balance, and the
account is current afterwards. -/
theorem creditGrowth_moves {id : AccountId} {asset : AssetId} {out : Outcome Amount}
    (hu : ledger.Updated id) (h : creditGrowth id asset ledger = .ok out) :
    Moves ledger 0 out.events out.ledger ∧ out.ledger.Current id asset := by
  obtain ⟨entry, grown, minted, he, hg, hm, rfl⟩ := creditGrowth_spec h
  have hrealize := Move.realize hu he hg
  have hu' := hrealize.keeps.updated hu
  have hcurrent : (ledger.withAccount id ((ledger.account id).withCheckpoint asset
      { (ledger.account id).checkpoint asset with
        lastIndex := entry.accrualIndex })).Current id asset :=
    ⟨_, _, entry, SortedMap.get?_insert_self .., hu.le, SortedMap.get?_insert_self ..,
      Ledger.asset_eq_ok.mp he, rfl⟩
  have hmint := mintStalk_moves hu' hm
  refine ⟨(Moves.step hrealize hmint).of_eq ?_, hmint.keeps.current hcurrent⟩
  rw [← due_add, neg_add_cancel, due_zero]

/-- **Mowing** mints what has been grown, and leaves the account current. -/
theorem mow_moves {id : AccountId} {asset : AssetId} {out : Outcome Amount}
    (h : mow id asset ledger = .ok out) :
    Moves ledger 0 out.events out.ledger ∧ out.ledger.Current id asset := by
  obtain ⟨updated, hup, hgrowth⟩ := mow_stages h
  obtain ⟨hmoves, hcurrent⟩ := creditGrowth_moves (updateAccount_updated hup) hgrowth
  exact ⟨(Moves.step (.update hup) hmoves).of_eq (add_zero 0), hcurrent⟩

/-! ### Entering a position -/

/-- **The first half of entering**: a position and its value are booked, and the stalk of both is
due. -/
theorem entering_moves {slot : Slot Index} {position : Position} {added booked : Outcome Unit}
    (hi : slot.mark.toInt ≤ ledger.tip slot.asset)
    (ha : addPositionAt slot position ledger = .ok added)
    (hb : creditValue slot.owner slot.asset position.value added.ledger = .ok booked) :
    Moves ledger (due slot.owner (-((ledger.stalkPerValue slot.asset + ledger.tip slot.asset -
      slot.mark.toInt) * position.value.toNat))) added.events booked.ledger := by
  have hcurrent : ledger.Current slot.owner slot.asset := by
    obtain ⟨_, _, _, -, -, hc, -⟩ := addPositionAt_eq_ok.mp ha
    exact Ledger.requireCurrent_eq_ok.mp hc
  have henter := Move.enter hi ha
  have hbook := Move.book (henter.keeps.current hcurrent) hb
  rw [henter.keeps.tip, henter.keeps.stalkPerValue] at hbook
  have hmoves := Moves.step henter (.single hbook)
  rw [Event.Log.append_empty] at hmoves
  refine hmoves.of_eq ?_
  rw [add_add_add_comm, ← due_add, ← unbooked_add, neg_add_cancel, unbooked_zero, add_zero]
  congr 1
  ring

/-! ### Removing positions -/

/-- A removal leaves value booked that no position has, and takes back what this value counted at its
index. -/
theorem removePosition_moves {slot : Slot Index} {amount : Amount} {out : Outcome Amount}
    (h : removePosition slot amount ledger = .ok out) :
    (amount = 0 → out.result = 0) ∧
      Moves ledger (due slot.owner (-(slot.mark.toInt * out.result.toNat)) +
        unbooked slot.owner slot.asset out.result.toNat) out.events out.ledger := by
  by_cases ha : amount = 0
  · subst ha
    obtain ⟨-, rfl⟩ := removePosition_zero_eq_ok.mp h
    refine ⟨fun _ => rfl, Moves.refl.of_eq ?_⟩
    simp
  · exact ⟨fun h₀ => absurd h₀ ha, .single (.remove ha h)⟩

/-- What is removed is added to the sums, and its value is kept in order. -/
theorem Removal.extend_eq_ok {removal removal' : Removal} {amount value : Amount}
    (h : removal.extend amount value = .ok removal') :
    removal'.totalValue.toNat = removal.totalValue.toNat + value.toNat ∧
      removal'.totalQuantity.toNat = removal.totalQuantity.toNat + amount.toNat ∧
        removal'.values = removal.values ++ [value] := by
  simp only [extend, bind_eq_ok, Unsigned.add_eq_ok, StalkLedger.pure_eq_ok] at h
  obtain ⟨_, hv, _, hq, rfl⟩ := h
  exact ⟨hv, hq, rfl⟩

/-- What a removal has taken: the entries asked for, each with the value that came of it. -/
structure Taking (owner : AccountId) (asset : AssetId) (entries : List (Index × Amount))
    (removal : Removal) (ledger : Ledger) (out : Outcome Removal) (taken : List (Index × Amount)) :
    Prop where
  indices : taken.map Prod.fst = entries.map Prod.fst
  values : out.result.values = removal.values ++ taken.map Prod.snd
  total : (out.result.totalValue.toNat : ℤ) = removal.totalValue.toNat + valued taken
  nothing : List.Forall₂ (fun e t => e.2 = 0 → t.2 = 0) entries taken
  moves : Moves ledger (due owner (-indexed taken) + unbooked owner asset (valued taken))
    out.events out.ledger

/-- Removing entry after entry: the induction is on the entries, and the removal so far only
collects the values. -/
theorem removeEach_taking {owner : AccountId} {asset : AssetId} {entries : List (Index × Amount)}
    {removal : Removal} {out : Outcome Removal}
    (h : removeEach owner asset entries removal ledger = .ok out) :
    ∃ taken, Taking owner asset entries removal ledger out taken := by
  induction entries generalizing removal ledger out with
  | nil =>
    obtain rfl := pure_eq_ok.mp h
    refine ⟨[], rfl, by simp, by simp, .nil, Moves.refl.of_eq ?_⟩
    rw [indexed_nil, valued_nil, neg_zero, due_zero, unbooked_zero, add_zero]
  | cons entry entries ih =>
    obtain ⟨index, amount⟩ := entry
    obtain ⟨first, rest, hfirst, hnext, rfl⟩ := bind_apply_ok.mp h
    obtain ⟨extended, hextend, hrest⟩ := lift_bind.mp hnext
    obtain ⟨htotal, -, hvalues⟩ := Removal.extend_eq_ok hextend
    obtain ⟨hnothing, hmoves⟩ := removePosition_moves hfirst
    obtain ⟨taken, taking⟩ := ih hrest
    refine ⟨(index, first.result) :: taken, ?_, ?_, ?_, .cons hnothing taking.nothing,
      (hmoves.trans taking.moves).of_eq ?_⟩
    · rw [List.map_cons, List.map_cons, taking.indices]
    · rw [taking.values, hvalues, List.map_cons, List.append_assoc, List.singleton_append]
    · rw [taking.total, htotal, valued_cons]
      push_cast
      ring
    · rw [add_add_add_comm, ← due_add, ← unbooked_add, indexed_cons, valued_cons, neg_add]

/-- What some values have grown together, and that none of them is from beyond the tip. -/
theorem grownOf_spec {tip : Index} {entries : List (Index × Amount)} {grown total : Amount}
    (h : grownOf tip entries grown = .ok total) :
    (total.toNat : ℤ) = grown.toNat + (tip.toInt * valued entries - indexed entries) ∧
      ∀ e ∈ entries, e.2 ≠ 0 → e.1.toInt ≤ tip.toInt := by
  induction entries generalizing grown with
  | nil =>
    cases h
    refine ⟨?_, List.forall_mem_nil _⟩
    rw [indexed_nil, valued_nil, mul_zero, sub_zero, add_zero]
  | cons entry entries ih =>
    obtain ⟨index, value⟩ := entry
    unfold grownOf at h
    split at h
    next hzero =>
      subst hzero
      obtain ⟨htotal, hle⟩ := ih h
      refine ⟨?_, List.forall_mem_cons.mpr ⟨fun hne => absurd rfl hne, hle⟩⟩
      rw [htotal, indexed_cons, valued_cons, Unsigned.toNat_zero]
      push_cast
      ring
    next =>
      simp only [bind_eq_ok, grownReward_eq_ok, Unsigned.add_eq_ok] at h
      obtain ⟨more, ⟨hindex, -, hmore⟩, sum, hsum, hrest⟩ := h
      obtain ⟨htotal, hle⟩ := ih hrest
      refine ⟨?_, List.forall_mem_cons.mpr ⟨fun _ => hindex, hle⟩⟩
      rw [htotal, hsum, indexed_cons, valued_cons]
      push_cast
      rw [hmore]
      ring

/-- **What retired positions carry**: the stalk of their values, and what these have grown since
their indices. -/
theorem stalkOf_spec {entry : Asset} {indices : List Index} {removal : Removal}
    {carried : CarriedStalk} (h : entry.stalkOf indices removal = .ok carried) :
    (carried.grown.toNat : ℤ) = entry.accrualIndex.toInt * valued (indices.zip removal.values) -
        indexed (indices.zip removal.values) ∧
      carried.stalk.toNat = removal.totalValue.toNat * entry.stalkPerValue.toNat +
        carried.grown.toNat ∧
      ∀ e ∈ indices.zip removal.values, e.2 ≠ 0 → e.1.toInt ≤ entry.accrualIndex.toInt := by
  simp only [Asset.stalkOf, bind_eq_ok, Unsigned.mul_eq_ok, Unsigned.add_eq_ok,
    StalkLedger.pure_eq_ok] at h
  obtain ⟨grown, hgrown, base, hbase, stalk, hstalk, rfl⟩ := h
  obtain ⟨htotal, hle⟩ := grownOf_spec hgrown
  refine ⟨?_, ?_, hle⟩
  · rw [htotal, Unsigned.toNat_zero, Nat.cast_zero, zero_add]
  · rw [hstalk, hbase]

/-- Removing several positions, at their indices. -/
theorem removeMultiple_taking {owner : AccountId} {asset : AssetId} {indices : List Index}
    {amounts : List Amount} {out : Outcome Removal}
    (h : removeMultiple owner asset indices amounts ledger = .ok out) :
    indices.length = amounts.length ∧
      Taking owner asset (indices.zip amounts) .none ledger out
        (indices.zip out.result.values) := by
  obtain ⟨hlength, hremove⟩ := removeMultiple_stages h
  obtain ⟨taken, taking⟩ := removeEach_taking hremove
  refine ⟨hlength, ?_⟩
  have hindices : taken.map Prod.fst = indices := by
    rw [taking.indices, List.map_fst_zip hlength.le]
  have hvalues : taken.map Prod.snd = out.result.values := by
    rw [taking.values]
    rfl
  rwa [← List.zip_of_prod hindices hvalues]

/-- **The first half of retiring**: positions and their value are no longer booked, and the stalk
they carry is to be burned or handed over. -/
theorem retiring_moves {owner : AccountId} {asset : AssetId} {indices : List Index}
    {amounts : List Amount} {removed : Outcome Removal} {entry : Asset} {carried : CarriedStalk}
    {debited : Outcome Unit} (hcurrent : ledger.Current owner asset)
    (hr : removeMultiple owner asset indices amounts ledger = .ok removed)
    (he : removed.ledger.asset asset = .ok entry)
    (hs : entry.stalkOf indices removed.result = .ok carried)
    (hd : debitValue owner asset removed.result.totalValue removed.ledger = .ok debited) :
    Moves ledger (due owner carried.stalk.toNat) removed.events debited.ledger := by
  obtain ⟨-, taking⟩ := removeMultiple_taking hr
  obtain ⟨hgrown, hstalk, -⟩ := stalkOf_spec hs
  have hvalue : (removed.result.totalValue.toNat : ℤ) = valued (indices.zip removed.result.values) :=
    taking.total.trans (zero_add _)
  have hunbook := Move.unbook (taking.moves.keeps.current hcurrent) hd
  rw [Ledger.stalkPerValue_eq he, Ledger.tip_eq he, hvalue] at hunbook
  have hmoves := taking.moves.trans (.single hunbook)
  rw [Event.Log.append_empty] at hmoves
  refine hmoves.of_eq ?_
  rw [add_add_add_comm, ← due_add, ← unbooked_add, add_neg_cancel, unbooked_zero, add_zero]
  congr 1
  rw [hstalk]
  push_cast
  rw [hgrown, hvalue]
  ring

/-! ### Deposits and withdrawals -/

/-- **A deposit** keeps the books in balance. -/
theorem deposit_moves {owner : AccountId} {asset : AssetId} {quantity value : Amount}
    {out : Outcome DepositReceipt} (h : deposit owner asset quantity value ledger = .ok out) :
    Moves ledger 0 out.events out.ledger := by
  obtain ⟨mown, tip, added, booked, entry, stalk, minted, -, hmow, htip, hadd, hbook, hentry,
    hstalk, hmint, rfl⟩ := deposit_stages h
  obtain ⟨hmown, hcurrent⟩ := mow_moves hmow
  have hentering := entering_moves (Ledger.tip_eq htip).ge hadd hbook
  have hminting := mintStalk_moves (hentering.keeps.updated hcurrent.updated) hmint
  refine (hmown.trans (hentering.trans hminting)).of_eq ?_
  -- The stalk is that of the value, because a position at the tip has not grown.
  rw [zero_add, ← due_add, Unsigned.mul_eq_ok.mp hstalk, ← Ledger.tip_eq htip,
    ← hentering.keeps.stalkPerValue, Ledger.stalkPerValue_eq hentry]
  convert due_zero owner using 2
  push_cast
  ring

/-- **A withdrawal** keeps the books in balance. -/
theorem withdraw_moves {owner : AccountId} {asset : AssetId} {indices : List Index}
    {amounts : List Amount} {out : Outcome WithdrawReceipt}
    (h : withdraw owner asset indices amounts ledger = .ok out) :
    Moves ledger 0 out.events out.ledger := by
  obtain ⟨mown, removed, entry, carried, debited, burned, hmow, hremove, hentry, hcarried, hdebit,
    hburn, rfl⟩ := withdraw_stages h
  obtain ⟨hmown, hcurrent⟩ := mow_moves hmow
  have hretiring := retiring_moves hcurrent hremove hentry hcarried hdebit
  have hburning := burnStalk_moves (hretiring.keeps.updated hcurrent.updated) hburn
  refine (hmown.trans (hretiring.trans hburning)).of_eq ?_
  rw [zero_add, ← due_add, add_neg_cancel, due_zero]

/-! ### Transfers -/

/-- Receiving positions keeps accounts in order. -/
theorem receiveEach_keeps {sender recipient : AccountId} {asset : AssetId}
    {entries : List (Index × Amount × Amount)} {out : Outcome Unit}
    (h : receiveEach sender recipient asset entries ledger = .ok out) :
    Ledger.Keeps ledger out.ledger := by
  induction entries generalizing ledger out with
  | nil =>
    obtain rfl := pure_eq_ok.mp h
    exact .refl _
  | cons entry entries ih =>
    obtain ⟨index, amount, value⟩ := entry
    unfold receiveEach at h
    split at h
    · exact ih h
    · obtain ⟨added, _, hadd, h₁, rfl⟩ := bind_apply_ok.mp h
      obtain ⟨rest, hrest, rfl⟩ := emit_bind.mp h₁
      have hkeeps := ih hrest
      exact (Ledger.Keeps.addPositionAt hadd).trans hkeeps

/-- Positions entered for a recipient at the indices they come from, entries of no quantity left
out: these have no value either. -/
theorem receiveEach_moves {sender recipient : AccountId} {asset : AssetId} {indices : List Index}
    {amounts values : List Amount} {out : Outcome Unit}
    (hlength : indices.length = amounts.length) (hlength' : indices.length ≤ values.length)
    (hnothing : List.Forall₂ (fun e t => e.2 = 0 → t.2 = 0) (indices.zip amounts)
      (indices.zip values))
    (htip : ∀ e ∈ indices.zip values, e.2 ≠ 0 → e.1.toInt ≤ ledger.tip asset)
    (h : receiveEach sender recipient asset (indices.zip (amounts.zip values)) ledger = .ok out) :
    Moves ledger (due recipient (indexed (indices.zip values)) +
      unbooked recipient asset (-valued (indices.zip values))) out.events out.ledger := by
  induction indices generalizing amounts values ledger out with
  | nil =>
    obtain rfl := pure_eq_ok.mp h
    refine Moves.refl.of_eq ?_
    rw [List.zip_nil_left, indexed_nil, valued_nil, neg_zero, due_zero, unbooked_zero, add_zero]
  | cons index indices ih =>
    rcases amounts with _ | ⟨amount, amounts⟩
    · cases hlength
    rcases values with _ | ⟨value, values⟩
    · cases hlength'
    simp only [List.zip_cons_cons] at h hnothing htip ⊢
    obtain ⟨hzero, hnothing'⟩ := List.forall₂_cons.mp hnothing
    obtain ⟨hindex, htip'⟩ := List.forall_mem_cons.mp htip
    have hl : indices.length = amounts.length := Nat.succ.inj hlength
    have hl' : indices.length ≤ values.length := Nat.le_of_succ_le_succ hlength'
    rw [indexed_cons, valued_cons]
    unfold receiveEach at h
    split at h
    next ha =>
      -- An entry that is left out would have counted nothing.
      obtain rfl : value = 0 := hzero ha
      simpa using ih hl hl' hnothing' htip' h
    next =>
      obtain ⟨added, _, hadd, h₁, rfl⟩ := bind_apply_ok.mp h
      obtain ⟨rest, hrest, rfl⟩ := emit_bind.mp h₁
      have hvalue : value ≠ 0 := by
        obtain ⟨_, _, _, -, hv, -⟩ := addPositionAt_eq_ok.mp hadd
        exact hv
      have henter := Move.enter (hindex hvalue) hadd
      have hnote : Move added.ledger 0 _ added.ledger :=
        .note (.positionTransferred sender recipient asset index amount value)
      rw [← henter.keeps.tip] at htip'
      refine (Moves.step henter (Moves.step hnote (ih hl hl' hnothing' htip' hrest))).of_eq ?_
      rw [zero_add, add_add_add_comm, ← due_add, ← unbooked_add, neg_add]

/-- What a transfer does to the imbalances: the sender and the recipient are each left as they were.
Here `w` is what the values count at their indices, `v` is their sum, and `r` the stalk of a unit of
value at the tip. -/
theorem transfer_cancels (sender recipient : AccountId) (asset : AssetId) {w v r s : ℤ}
    (hs : s = r * v - w) :
    (due sender (-w) + unbooked sender asset v) +
        ((due recipient w + unbooked recipient asset (-v)) +
          ((due sender (r * v) + unbooked sender asset (-v)) +
            ((due recipient (-r * v) + unbooked recipient asset v) +
              (due sender (-s) + due recipient s)))) = 0 := by
  calc _ = (due sender (-w) + due sender (r * v) + due sender (-s)) +
        (due recipient w + due recipient (-r * v) + due recipient s) +
        (unbooked sender asset v + unbooked sender asset (-v)) +
        (unbooked recipient asset (-v) + unbooked recipient asset v) := by abel
    _ = due sender 0 + due recipient 0 + 0 + 0 := by
      rw [← due_add, ← due_add, ← due_add, ← due_add, ← unbooked_add, ← unbooked_add,
        add_neg_cancel, neg_add_cancel, unbooked_zero, unbooked_zero, hs]
      congr 4 <;> ring
    _ = 0 := by rw [due_zero, due_zero, add_zero, add_zero, add_zero]

/-- **A transfer** hands over the stalk that the positions carry, and books them anew at the same
indices. -/
theorem transferRealized_moves {sender recipient : AccountId} {asset : AssetId}
    {indices : List Index} {amounts : List Amount} {out : Outcome TransferReceipt}
    (hsender : ledger.Current sender asset) (hrecipient : ledger.Current recipient asset)
    (h : transferRealized sender recipient asset indices amounts ledger = .ok out) :
    Moves ledger 0 out.events out.ledger := by
  obtain ⟨removed, received, entry, carried, debited, credited, handed, hremove, hreceive, hentry,
    hcarried, hdebit, hcredit, hhand, rfl⟩ := transferRealized_stages h
  obtain ⟨hlength, taking⟩ := removeMultiple_taking hremove
  obtain ⟨hgrown, hstalk, hle⟩ := stalkOf_spec hcarried
  have hvalue : (removed.result.totalValue.toNat : ℤ) = valued (indices.zip removed.result.values) :=
    taking.total.trans (zero_add _)
  have hlength' : indices.length ≤ removed.result.values.length := by
    have := congrArg List.length taking.indices
    simp only [List.length_map, List.length_zip, ← hlength, Nat.min_self] at this
    exact min_eq_left_iff.mp this
  -- The tip is known to be the same before it is known that the moves are allowed.
  have hkeeps := receiveEach_keeps hreceive
  have htip : entry.accrualIndex.toInt = removed.ledger.tip asset := by
    rw [← hkeeps.tip, Ledger.tip_eq hentry]
  have hreceiving := receiveEach_moves hlength hlength' taking.nothing (htip ▸ hle) hreceive
  have hunbook := Move.unbook (hkeeps.current (taking.moves.keeps.current hsender)) hdebit
  have hcurrent := hunbook.keeps.current (hkeeps.current (taking.moves.keeps.current hrecipient))
  have hbook := Move.book hcurrent hcredit
  have hhanding := transferStalk_moves
    ((hunbook.keeps.trans hbook.keeps).updated
      (hkeeps.updated (taking.moves.keeps.updated hsender.updated)))
    (hbook.keeps.updated hcurrent.updated) hhand
  rw [hunbook.keeps.stalkPerValue, hunbook.keeps.tip] at hbook
  rw [Ledger.stalkPerValue_eq hentry, Ledger.tip_eq hentry, hvalue] at hunbook hbook
  have hmoves := taking.moves.trans (hreceiving.trans (.step hunbook (.step hbook hhanding)))
  refine hmoves.of_eq (transfer_cancels sender recipient asset ?_)
  rw [hstalk]
  push_cast
  rw [hgrown, hvalue]
  ring

/-- **A transfer** keeps the books in balance, also between an account and itself. -/
theorem transfer_moves {sender recipient : AccountId} {asset : AssetId}
    {indices : List Index} {amounts : List Amount} {out : Outcome TransferReceipt}
    (h : transfer sender recipient asset indices amounts ledger = .ok out) :
    Moves ledger 0 out.events out.ledger := by
  obtain ⟨mown, mown', moved, hmow, hmow', hmove, rfl⟩ := transfer_stages h
  obtain ⟨hmoves, hsender⟩ := mow_moves hmow
  obtain ⟨hmoves', hrecipient⟩ := mow_moves hmow'
  have htransfer := transferRealized_moves (hmoves'.keeps.current hsender) hrecipient hmove
  exact hmoves.trans (hmoves'.trans htransfer)

/-! ### Conversions -/

/-- Each half of a conversion keeps the books in balance by itself: retiring burns what the
positions carried, -/
theorem retire_moves {order : ConversionOrder} {out : Outcome Retired}
    (hcurrent : ledger.Current order.owner order.fromAsset)
    (h : retire order ledger = .ok out) : Moves ledger 0 out.events out.ledger := by
  obtain ⟨removed, entry, carried, debited, burned, hremove, hentry, hcarried, hdebit, hburn,
    rfl⟩ := retire_stages h
  have hretiring := retiring_moves hcurrent hremove hentry hcarried hdebit
  have hburning := burnStalk_moves (hretiring.keeps.updated hcurrent.updated) hburn
  refine (hretiring.trans hburning).of_eq ?_
  rw [← due_add, add_neg_cancel, due_zero]

/-- and entering mints what the new position counts at the index that it is entered at. -/
theorem enter_moves {order : ConversionOrder} {retired : Retired} {value : Amount}
    {out : Outcome ConversionReceipt} (hcurrent : ledger.Current order.owner order.toAsset)
    (h : enter order retired value ledger = .ok out) : Moves ledger 0 out.events out.ledger := by
  obtain ⟨target, backdate, forfeited, base, stalk, added, booked, minted, event, htarget,
    hbackdate, -, hbase, hstalk, hadd, hbook, hmint, -, rfl⟩ := enter_stages h
  obtain ⟨-, -, hindex, hgrown⟩ := indexForGrown_eq_ok.mp hbackdate
  have hback : backdate.index.toInt ≤ ledger.tip order.toAsset := by
    rw [hindex, Ledger.tip_eq htarget]
    exact sub_le_self _ (Int.natCast_nonneg _)
  have hentering := entering_moves hback hadd hbook
  have hminting := mintStalk_moves (hentering.keeps.updated hcurrent.updated) hmint
  refine (hentering.trans (hminting.trans (.single (.note _)))).of_eq ?_
  -- The index goes back by as many steps as the growth carried over pays for.
  rw [add_zero, ← due_add, Unsigned.add_eq_ok.mp hstalk, Unsigned.mul_eq_ok.mp hbase, hgrown,
    hindex, Ledger.tip_eq htarget, Ledger.stalkPerValue_eq htarget]
  convert due_zero order.owner using 2
  push_cast
  ring

/-- **A conversion** keeps the books in balance. -/
theorem convert_moves {order : ConversionOrder} {valueOf : Amount → Except Fault Amount}
    {out : Outcome ConversionReceipt}
    (h : convert order valueOf ledger = .ok out) : Moves ledger 0 out.events out.ledger := by
  obtain ⟨mown, mown', retired, recomputed, entered, -, hmow, hmow', hretire, -, henter, rfl⟩ :=
    convert_stages h
  obtain ⟨hmoves, hfrom⟩ := mow_moves hmow
  obtain ⟨hmoves', hto⟩ : Moves mown.ledger 0 mown'.events mown'.ledger ∧
      mown'.ledger.Current order.owner order.toAsset := by
    rcases hmow' with ⟨-, hmow'⟩ | ⟨heq, rfl⟩
    · exact mow_moves hmow'
    · exact ⟨.refl, heq ▸ hfrom⟩
  have hretiring := retire_moves (hmoves'.keeps.current hfrom) hretire
  have hentering := enter_moves (hretiring.keeps.current hto) henter
  exact hmoves.trans (hmoves'.trans (hretiring.trans hentering))

/-! ### Planting -/

/-- **Planting** keeps the books in balance: the stalk that leaves the pool is credited to the
account, for a position that has grown nothing yet. -/
theorem plant_moves {id : AccountId} {out : Outcome PlantReceipt}
    (h : plant id ledger = .ok out) : Moves ledger 0 out.events out.ledger := by
  obtain ⟨mown, quantity, entry, hmow, -, hentry, hplant⟩ := plant_stages h
  obtain ⟨hmown, hcurrent⟩ := mow_moves hmow
  rcases hplant with ⟨-, rfl⟩ | ⟨stalk, pool, tip, added, booked, credited, event, hstalk, hpool,
    htip, hadd, hbook, hcredit, -, rfl⟩
  · exact hmown
  have hdraw := Move.drawPool (Unsigned.sub_eq_ok.mp hpool)
  have hentering := entering_moves (Ledger.tip_eq htip).ge hadd hbook
  have hcrediting := Move.credit (hentering.keeps.updated (hdraw.keeps.updated hcurrent.updated))
    hcredit
  rw [hdraw.keeps.stalkPerValue, hdraw.keeps.tip, Ledger.stalkPerValue_eq hentry,
    Ledger.tip_eq htip, add_sub_cancel_right] at hentering
  have hbase : mown.ledger.stalkPerValue mown.ledger.charter.baseAsset =
      entry.stalkPerValue.toNat := by
    rw [hmown.keeps.charter, Ledger.stalkPerValue_eq hentry]
  rw [hbase] at hdraw
  have hmoves := hmown.trans (.step hdraw
    (hentering.trans (.step hcrediting (.single (.note event)))))
  refine hmoves.of_eq ?_
  -- The total has counted this stalk before, as that of the pool.
  have hvalue : (stalk.toNat : ℤ) = entry.stalkPerValue.toNat * quantity.toNat := by
    rw [Unsigned.mul_eq_ok.mp hstalk, Nat.mul_comm, Nat.cast_mul]
  rw [hvalue, mul_comm (quantity.toNat : ℤ), add_zero, zero_add]
  calc _ = (unpooled (entry.stalkPerValue.toNat * quantity.toNat) +
          unpooled (-(entry.stalkPerValue.toNat * quantity.toNat))) +
        (due id (-(entry.stalkPerValue.toNat * quantity.toNat)) +
          due id (entry.stalkPerValue.toNat * quantity.toNat)) := by abel
    _ = 0 := by
      rw [← unpooled_add, ← due_add, add_neg_cancel, neg_add_cancel, due_zero, add_zero]
      rfl

/-! ### Legacy positions -/

/-- **An import** keeps the books in balance: it mints what its position counts at the index that
the epoch stands for. -/
theorem importLegacy_moves {owner : AccountId} {asset : AssetId} {legacyEpoch : Epoch}
    {quantity value : Amount} {out : Outcome Index}
    (h : importLegacy owner asset legacyEpoch quantity value ledger = .ok out) :
    Moves ledger 0 out.events out.ledger := by
  obtain ⟨terms, index, mown, legacyDeposits, entry, entry', booked, base, grown, stalk, minted,
    event, hterms, hrange, hq, hv, hindex, hmow, hput, hentry, htake, hbook, hbase, hgrown, hstalk,
    hmint, -, rfl⟩ := importLegacy_stages h
  obtain ⟨hmown, hcurrent⟩ := mow_moves hmow
  rw [← hmown.keeps.charter] at hrange hindex
  have himport := @Move.importLegacy _ _ _ _ _ _ _ _ _ ⟨quantity, value⟩ hcurrent hrange
    (hmown.keeps.legacyTerms hterms) hindex hq hv hput hentry htake
  have hbooking := Move.book (himport.keeps.current hcurrent) hbook
  have hminting := mintStalk_moves
    (hbooking.keeps.updated (himport.keeps.updated hcurrent.updated)) hmint
  have hmoves := hmown.trans (.step himport (.step hbooking (hminting.trans (.single (.note event)))))
  refine hmoves.of_eq ?_
  obtain ⟨_, _, -, -, rfl⟩ := Asset.take_eq_ok.mp htake
  rw [himport.keeps.stalkPerValue, himport.keeps.tip, Ledger.stalkPerValue_eq hentry,
    Ledger.tip_eq hentry, Unsigned.add_eq_ok.mp hstalk, Unsigned.mul_eq_ok.mp hbase]
  push_cast
  rw [(grownReward_eq_ok.mp hgrown).2.2]
  generalize (entry.stalkPerValue.toNat : ℤ) = p
  generalize entry.accrualIndex.toInt = t
  generalize (value.toNat : ℤ) = v
  calc _ = (due owner (index.toInt * v) + due owner (-(p + t) * v) +
          due owner (v * p + (t - index.toInt) * v)) +
        (unbooked owner asset (-v) + unbooked owner asset v) := by abel
    _ = 0 := by
      rw [← due_add, ← due_add, ← unbooked_add, neg_add_cancel, unbooked_zero, add_zero]
      convert due_zero owner using 2
      ring

/-- An entry counts the same in either store, as its epoch stands for the index that it moves to.
-/
theorem migrateEpoch_moves {owner : AccountId} {asset : AssetId} {terms : LegacyTerms}
    {epoch : Epoch} {out : Outcome (Option Index)} (hcurrent : ledger.Current owner asset)
    (hterms : ledger.legacyTerms asset = .ok terms)
    (h : migrateEpoch owner asset terms epoch ledger = .ok out) :
    Moves ledger 0 out.events out.ledger := by
  obtain ⟨hrange, hstages⟩ := migrateEpoch_stages h
  rcases hstages with ⟨-, rfl⟩ | ⟨position, index, deposits, hget, hindex, hput, rfl⟩
  · exact .refl
  · exact .single (.migrate hcurrent hrange hterms hindex hget hput)

/-- Migrating epoch after epoch: the account stays current, and the terms stay the same. -/
theorem migrateEach_moves {owner : AccountId} {asset : AssetId} {terms : LegacyTerms}
    {epochs : List Epoch} {out : Outcome (List Index)} (hcurrent : ledger.Current owner asset)
    (hterms : ledger.legacyTerms asset = .ok terms)
    (h : migrateEach owner asset terms epochs ledger = .ok out) :
    Moves ledger 0 out.events out.ledger := by
  induction epochs generalizing ledger out with
  | nil =>
    obtain rfl := pure_eq_ok.mp h
    exact .refl
  | cons epoch epochs ih =>
    obtain ⟨moved, _, hmove, h₁, rfl⟩ := bind_apply_ok.mp h
    obtain ⟨others, hothers, rfl⟩ := bind_pure_eq_ok.mp h₁
    have hmoves := migrateEpoch_moves hcurrent hterms hmove
    have hrest := ih (hmoves.keeps.current hcurrent) (hmoves.keeps.legacyTerms hterms) hothers
    exact hmoves.trans hrest

/-- **A migration** leaves the books as they are. -/
theorem migrate_moves {owner : AccountId} {asset : AssetId} {epochs : List Epoch}
    {out : Outcome (List Index)} (h : migrate owner asset epochs ledger = .ok out) :
    Moves ledger 0 out.events out.ledger := by
  obtain ⟨terms, mown, moved, hterms, hmow, hmove, rfl⟩ := migrate_stages h
  obtain ⟨hmown, hcurrent⟩ := mow_moves hmow
  exact hmown.trans (migrateEach_moves hcurrent (hmown.keeps.legacyTerms hterms) hmove)

end StalkLedger
