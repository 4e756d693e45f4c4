import StalkLedger.Proofs.Cover

/-!
# Avoiding a fault

Some faults are nobody's doing (`Fault.internal`): that an account has not been realized although it
was, that less was removed than was asked for although it was there, that a difference falls below
zero or a divisor is zero, that a flood has no record.  Each would tell of books that contradict
themselves.

A computation *avoids* such a fault if it does not end in it (`Avoids`).  What is put together from
computations that avoid a fault avoids it too, and a step needs to avoid it only where the steps
before it have succeeded (`Avoids.bind`, `Avoids.seq`).  The laws of this module say under which
conditions the elementary computations and actions avoid these faults.
-/

namespace StalkLedger

open StalkLedger.Action

/-- The faults that would tell of books that contradict themselves. -/
def Fault.internal : Fault → Bool
  | .insufficientRemoved .. | .staleAccrual .. | .underflow | .divisionByZero => true
  | .invalidConfig reason => reason = "flood record missing"
  | _ => false

/-- A computation does not end in a fault, if that is an internal one. -/
def Avoids {α : Type} (fault : Fault) (x : Except Fault α) : Prop :=
  fault.internal = true → x ≠ .error fault

variable {fault : Fault} {ledger : Ledger}

/-! ### Sequences -/

namespace Avoids

variable {α β : Type}

/-- A computation that succeeds. -/
theorem of_ok {x : Except Fault α} {a : α} (h : x = .ok a) : Avoids fault x := fun _ he =>
  nomatch h.symm.trans he

theorem ok (a : α) : Avoids fault (.ok a : Except Fault α) := of_ok rfl

/-- Another fault. -/
theorem error {other : Fault} (h : other.internal = false) :
    Avoids fault (.error other : Except Fault α) := by
  rintro hf ⟨⟩
  rw [h] at hf
  cases hf

/-- A computation that can only end in an overflow. -/
theorem of_overflow {x : Except Fault α} (h : ∀ other, x = .error other → other = .overflow) :
    Avoids fault x := by
  rintro hf he
  rw [h fault he] at hf
  cases hf

/-- The same fault where another result was expected. -/
theorem retype {other : Fault} (h : Avoids fault (.error other : Except Fault α)) :
    Avoids fault (.error other : Except Fault β) := fun hf he => h hf (by cases he; rfl)

/-- One computation after another. -/
theorem bind {x : Except Fault α} {f : α → Except Fault β} (hx : Avoids fault x)
    (hf : ∀ a, x = .ok a → Avoids fault (f a)) : Avoids fault (x >>= f) := by
  cases x with
  | error other => exact hx.retype
  | ok a => exact hf a rfl

theorem map {x : Except Fault α} {f : α → β} (hx : Avoids fault x) : Avoids fault (x.map f) := by
  cases x with
  | error other => exact hx.retype
  | ok a => exact ok (f a)

/-- One action after another. -/
theorem seq {action : Action α} {next : α → Action β} (h : Avoids fault (action ledger))
    (hn : ∀ out, action ledger = .ok out → Avoids fault (next out.result out.ledger)) :
    Avoids fault ((action >>= next) ledger) := by
  intro hf he
  rcases bind_apply_error.mp he with he | ⟨out, hout, he⟩
  · exact h hf he
  · exact hn out hout hf he

/-- An action after one that succeeds. -/
theorem after {action : Action α} {next : α → Action β} {out : Outcome α}
    (h : action ledger = .ok out) (hn : Avoids fault (next out.result out.ledger)) :
    Avoids fault ((action >>= next) ledger) := by
  refine seq (of_ok h) fun out' h' => ?_
  obtain rfl := Except.ok.inj (h.symm.trans h')
  exact hn

theorem pure (a : α) : Avoids fault ((Pure.pure a : Action α) ledger) := of_ok rfl

/-- An action that refuses with another fault. -/
theorem fail {other : Fault} (h : other.internal = false) :
    Avoids fault (Action.fail other ledger : Except Fault (Outcome α)) := error h

/-- An action that looks at the ledger. -/
theorem read {next : Ledger → Action β} (h : Avoids fault (next ledger ledger)) :
    Avoids fault ((Action.ledger >>= next) ledger) := after rfl h

/-- An action after a computation. -/
theorem lift {x : Except Fault α} {next : α → Action β} (hx : Avoids fault x)
    (hn : ∀ a, x = .ok a → Avoids fault (next a ledger)) :
    Avoids fault (((liftM x : Action α) >>= next) ledger) := by
  cases x with
  | error other => exact hx.retype
  | ok a => exact after rfl (hn a rfl)

/-- An action for an account that is current. -/
theorem current {next : Unit → Action β} {id : AccountId} {asset : AssetId}
    (hc : ledger.Current id asset) (h : Avoids fault (next () ledger)) :
    Avoids fault ((ensureCurrent id asset >>= next) ledger) := by
  unfold ensureCurrent
  rw [LawfulMonad.bind_assoc]
  exact read (lift (of_ok (Ledger.requireCurrent_eq_ok.mpr hc)) fun _ _ => h)

end Avoids

/-! ### Arithmetic -/

namespace Unsigned

/-- A sum can only overflow, -/
theorem add_avoids {bits : ℕ} (a b : Unsigned bits) : Avoids fault (a.add b) :=
  .of_overflow fun _ h => (add_eq_error.mp h).2

/-- and so can a product. -/
theorem mul_avoids {bits : ℕ} (a b : Unsigned bits) : Avoids fault (a.mul b) :=
  .of_overflow fun _ h => (mul_eq_error.mp h).2

/-- A smaller number can be taken off a larger one. -/
theorem sub_avoids {bits : ℕ} {a b : Unsigned bits} (h : b ≤ a) : Avoids fault (a.sub b) :=
  .of_ok (if_pos h)

end Unsigned

/-- An integer that is out of range is an overflow. -/
theorem Signed.checked_avoids {bits : ℕ} (i : ℤ) :
    Avoids fault (Signed.checked i : Except Fault (Signed bits)) :=
  .of_overflow fun _ h => (checked_eq_error.mp h).2

/-- The loss that an event records can only be out of range. -/
theorem Unsigned.loss_avoids (a : Amount) : Avoids fault a.loss :=
  .bind (Signed.checked_avoids _) fun _ _ => Signed.checked_avoids _

/-- The long division fails only by a quotient that is too large, unless the divisor is zero. -/
theorem mulDivMod_avoids {a b d : Amount} (h : d ≠ 0) :
    Avoids fault (Wide.mulDivMod a.word b.word d.word) := by
  have hd : d.word ≠ 0 := fun h₀ => h (Unsigned.ext (congrArg BitVec.toNat h₀))
  unfold Wide.mulDivMod Wide.divide
  dsimp only
  rw [if_neg hd]
  split
  · exact .ok _
  · split
    · exact .error rfl
    · exact .ok _

/-- So does a quotient that is rounded down, -/
theorem mulDiv_avoids {a b d : Amount} (h : d ≠ 0) : Avoids fault (mulDiv a b d) :=
  .bind (mulDivMod_avoids h) fun _ _ => .ok _

/-- and one that is rounded up. -/
theorem mulDivCeil_avoids {a b d : Amount} (h : d ≠ 0) : Avoids fault (mulDivCeil a b d) := by
  refine .bind (mulDivMod_avoids h) fun division _ => ?_
  split
  · exact .ok _
  · exact Unsigned.add_avoids _ _

/-- Up to the tip there are no steps missing. -/
theorem grownReward_avoids {tip index : Index} (value : Amount) (h : index.toInt ≤ tip.toInt) :
    Avoids fault (grownReward tip index value) := by
  refine .bind (Signed.checked_avoids _) fun steps hsteps => ?_
  have hnn : ¬ steps < 0 := by
    rw [Signed.lt_iff, Signed.sub_eq_ok.mp hsteps, Signed.toInt_zero]
    omega
  rw [if_neg hnn]
  exact .of_overflow fun _ h => (Unsigned.checked_eq_error.mp h).2

/-- Growth can be turned back into an index for any value but zero. -/
theorem indexForGrown_avoids {tip : Index} {grown value : Amount} (h : value ≠ 0) :
    Avoids fault (indexForGrown tip grown value) := by
  unfold indexForGrown
  rw [if_neg h]
  exact .bind (Unsigned.mul_avoids _ _) fun _ _ => .bind (Signed.checked_avoids _) fun _ _ =>
    .bind (Signed.checked_avoids _) fun _ _ => .ok _

/-- The first stalk has its own rule for roots, so nothing is divided by a stalk of zero. -/
theorem rootsForMint_avoids (totalRoots totalStalk stalk : Amount) :
    Avoids fault (rootsForMint totalRoots totalStalk stalk) := by
  unfold rootsForMint
  split
  · exact Unsigned.mul_avoids _ _
  next h => exact mulDiv_avoids fun h₀ => h (.inr h₀)

theorem sumOf_avoids (amounts : List Amount) (sum : Amount) : Avoids fault (sumOf amounts sum) := by
  induction amounts generalizing sum with
  | nil => exact .ok sum
  | cons amount amounts ih => exact .bind (Unsigned.add_avoids _ _) fun sum _ => ih sum

/-! ### Books -/

namespace Ledger

/-- An asset that is not listed is not an internal fault. -/
theorem asset_avoids (ledger : Ledger) (id : AssetId) : Avoids fault (ledger.asset id) := by
  unfold asset
  split
  · exact .ok _
  · exact .error rfl

theorem accrualIndex_avoids (ledger : Ledger) (id : AssetId) :
    Avoids fault (ledger.accrualIndex id) :=
  .bind (ledger.asset_avoids id) fun _ _ => .ok _

/-- Nor is it one that an asset is closed to deposits, -/
theorem requireOpen_avoids (ledger : Ledger) (id : AssetId) :
    Avoids fault (ledger.requireOpen id) := by
  refine .bind (ledger.asset_avoids id) fun entry _ => ?_
  split
  · exact .ok _
  · exact .error rfl

/-- that it has no legacy terms, -/
theorem legacyTerms_avoids (ledger : Ledger) (id : AssetId) :
    Avoids fault (ledger.legacyTerms id) := by
  refine .bind (ledger.asset_avoids id) fun entry _ => ?_
  split
  · exact .ok _
  · exact .error rfl

/-- or that an epoch is not a legacy epoch. -/
theorem requireLegacy_avoids (ledger : Ledger) (id : AssetId) (epoch : Epoch) :
    Avoids fault (ledger.requireLegacy id epoch) := by
  unfold requireLegacy
  split
  · exact .ok _
  · exact .error rfl

end Ledger

/-- The totals of an asset can only overflow where a position is added to them. -/
theorem Asset.take_avoids (entry : Asset) (position : Position) :
    Avoids fault (entry.take position) :=
  .bind (Unsigned.add_avoids _ _) fun _ _ => .bind (Unsigned.add_avoids _ _) fun _ _ => .ok _

/-- A position of nothing is refused as such. -/
theorem Position.make_avoids (asset : AssetId) (quantity value : Amount) :
    Avoids fault (Position.make asset quantity value) := by
  unfold make
  split
  · exact .error rfl
  · exact .ok _

/-- What is put on top of a position can only overflow. -/
theorem SortedMap.put_avoids {μ : Type} [Key μ] (store : SortedMap (Slot μ) Position)
    (slot : Slot μ) (position : Position) : Avoids fault (store.put slot position) :=
  .bind (.bind (Unsigned.add_avoids _ _) fun _ _ => .bind (Unsigned.add_avoids _ _) fun _ _ =>
    .ok _) fun _ _ => .ok _

theorem Removal.extend_avoids (removal : Removal) (amount value : Amount) :
    Avoids fault (removal.extend amount value) :=
  .bind (Unsigned.add_avoids _ _) fun _ _ => .bind (Unsigned.add_avoids _ _) fun _ _ => .ok _

/-- Lists that do not fit together are refused as such. -/
theorem checkLengths_avoids (indices : List Index) (amounts : List Amount) :
    Avoids fault (checkLengths indices amounts) := by
  unfold checkLengths
  split
  · exact .error rfl
  · split
    · exact .error rfl
    · exact .ok _

/-! ### Stalk -/

variable {id : AccountId} {stalk roots : Amount}

/-- Stalk can be credited to any account, unless balance or record go out of range. -/
theorem creditStalk_avoids : Avoids fault (creditStalk id stalk roots ledger) := by
  refine .read (.lift ?_ fun _ _ => ?_)
  · exact .bind (Unsigned.add_avoids _ _) fun _ _ => .bind (Unsigned.add_avoids _ _) fun _ _ =>
      .ok _
  · exact .lift (Signed.checked_avoids _) fun _ _ => .lift (Signed.checked_avoids _) fun _ _ =>
      .after rfl (.ok _)

/-- What an account has can be taken from it, unless the record of the change is out of range. -/
theorem debitStalk_avoids {account : Account}
    (h : (ledger.account id).debit stalk roots = .ok account) :
    Avoids fault (debitStalk id stalk roots ledger) :=
  .read <| .lift (.of_ok h) fun _ _ => .lift (Unsigned.loss_avoids _) fun _ _ =>
    .lift (Unsigned.loss_avoids _) fun _ _ => .after rfl (.ok _)

/-- So can it be minted. -/
theorem mintStalk_avoids : Avoids fault (mintStalk id stalk ledger) := by
  unfold mintStalk
  split
  · exact .pure _
  · refine .read (.lift (rootsForMint_avoids _ _ _) fun roots _ => .lift ?_ fun totals _ => ?_)
    · exact .bind (Unsigned.add_avoids _ _) fun _ _ => .bind (Unsigned.add_avoids _ _) fun _ _ =>
        .ok _
    · exact .after rfl (.seq creditStalk_avoids fun _ _ => .pure _)

/-- Stalk that an account covers can be burned: the roots that go with it are covered as well. -/
theorem burnStalk_avoids (h : ledger.Covers id stalk) :
    Avoids fault (burnStalk id stalk ledger) := by
  unfold burnStalk
  split
  · exact .pure _
  obtain ⟨roots, hroots, hle⟩ := h.rootsForBurn_succeeds
  obtain ⟨⟨totals, htotals⟩, account, haccount⟩ := h.debit_succeeds hle
  refine .read (.lift (.of_ok hroots) fun roots' hroots' => ?_)
  obtain rfl := Except.ok.inj (hroots.symm.trans hroots')
  exact .lift (.of_ok htotals) fun _ _ => .after rfl <|
    .seq (debitStalk_avoids haccount) fun _ _ => .pure _

/-- It can be handed over likewise. -/
theorem transferStalk_avoids {recipient : AccountId} (h : ledger.Covers id stalk) :
    Avoids fault (transferStalk id recipient stalk ledger) := by
  unfold transferStalk
  split
  · exact .pure _
  obtain ⟨roots, hroots, hle⟩ := h.rootsForBurn_succeeds
  obtain ⟨-, account, haccount⟩ := h.debit_succeeds hle
  refine .read (.lift (.of_ok hroots) fun roots' hroots' => ?_)
  obtain rfl := Except.ok.inj (hroots.symm.trans hroots')
  exact .seq (debitStalk_avoids haccount) fun _ _ => .seq creditStalk_avoids fun _ _ => .pure _

/-! ### Value and positions -/

variable {asset : AssetId}

/-- Value that is booked at a checkpoint can only overflow. -/
theorem creditValue_avoids (value : Amount) : Avoids fault (creditValue id asset value ledger) :=
  .read <| .lift (Unsigned.add_avoids _ _) fun _ _ => .ok _

/-- A position can be added for an account that is current, -/
theorem addPositionAt_avoids {slot : Slot Index} (position : Position)
    (hc : ledger.Current slot.owner slot.asset) :
    Avoids fault (addPositionAt slot position ledger) :=
  .lift (Position.make_avoids _ _ _) fun _ _ => .current hc <| .read <|
    .lift (SortedMap.put_avoids _ _ _) fun _ _ => .lift (ledger.asset_avoids _) fun _ _ =>
      .lift (Asset.take_avoids _ _) fun _ _ => .after rfl (.after rfl (.ok _))

/-- also at the tip. -/
theorem addPosition_avoids {owner : AccountId} (position : Position)
    (hc : ledger.Current owner asset) :
    Avoids fault (addPosition owner asset position ledger) :=
  .read <| .lift (ledger.accrualIndex_avoids _) fun _ _ =>
    .seq (addPositionAt_avoids position hc) fun _ _ => .pure _

/-- A removal is refused only because less is held. -/
theorem Ledger.Tallied.takeAt_avoids {slot : Slot Index} {entry : Asset} {amount : Amount}
    (h : ledger.Tallied) (he : ledger.asset slot.asset = .ok entry) (hne : amount ≠ 0) :
    Avoids fault (ledger.takeAt entry slot amount) := by
  by_cases hle : amount.toNat ≤ ledger.available entry slot
  · obtain ⟨_, _, ht⟩ := h.takeAt_succeeds he hne hle
    exact .of_ok ht
  · obtain ⟨rest, -, ht⟩ := h.takeAt_refuses he (Nat.not_le.mp hle)
    rw [ht]
    exact .error rfl

/-- What has been taken out of a slot can be taken off the totals of its asset, because the totals
are the sum of all slots. -/
theorem removePosition_avoids {slot : Slot Index} (amount : Amount) (ht : ledger.Tallied)
    (hc : ledger.Current slot.owner slot.asset) :
    Avoids fault (removePosition slot amount ledger) := by
  refine .current hc ?_
  split
  · exact .pure _
  next hne =>
    refine .read (.lift (ledger.asset_avoids _) fun entry he =>
      .lift (ht.takeAt_avoids he hne) fun ⟨value, taken⟩ htake => ?_)
    obtain ⟨entry', hrelease⟩ := ht.release_succeeds he htake
    exact .lift (.of_ok hrelease) fun _ _ => .after rfl <| .after rfl <| .after rfl <| .pure _

/-- A removal leaves the totals right and the account current, so another one can follow. -/
theorem removeEach_avoids {owner : AccountId} (entries : List (Index × Amount)) (removal : Removal)
    (ht : ledger.Tallied) (hc : ledger.Current owner asset) :
    Avoids fault (removeEach owner asset entries removal ledger) := by
  induction entries generalizing removal ledger with
  | nil => exact .pure removal
  | cons entry entries ih =>
    refine .seq (removePosition_avoids _ ht hc) fun first hfirst => ?_
    obtain ⟨-, hmoves⟩ := removePosition_moves hfirst
    exact .lift (Removal.extend_avoids _ _ _) fun extended _ =>
      ih extended (hmoves.tallied ht) (hmoves.keeps.current hc)

theorem removeMultiple_avoids {owner : AccountId} (indices : List Index) (amounts : List Amount)
    (ht : ledger.Tallied) (hc : ledger.Current owner asset) :
    Avoids fault (removeMultiple owner asset indices amounts ledger) :=
  .lift (checkLengths_avoids _ _) fun _ _ => removeEach_avoids _ _ ht hc

/-- Growth can be counted for entries that are not beyond the tip; an entry of no value may be
anywhere. -/
theorem grownOf_avoids {tip : Index} {entries : List (Index × Amount)} (grown : Amount)
    (h : ∀ e ∈ entries, e.2 ≠ 0 → e.1.toInt ≤ tip.toInt) :
    Avoids fault (grownOf tip entries grown) := by
  induction entries generalizing grown with
  | nil => exact .ok grown
  | cons entry entries ih =>
    obtain ⟨hindex, hrest⟩ := List.forall_mem_cons.mp h
    unfold grownOf
    split
    next => exact ih grown hrest
    next hne =>
      exact .bind (grownReward_avoids _ (hindex hne)) fun more _ =>
        .bind (Unsigned.add_avoids _ _) fun sum _ => ih sum hrest

/-- So can the stalk that a removal carried. -/
theorem Asset.stalkOf_avoids {entry : Asset} {indices : List Index} {removal : Removal}
    (h : ∀ e ∈ indices.zip removal.values, e.2 ≠ 0 → e.1.toInt ≤ entry.accrualIndex.toInt) :
    Avoids fault (entry.stalkOf indices removal) :=
  .bind (grownOf_avoids 0 h) fun _ _ => .bind (Unsigned.mul_avoids _ _) fun _ _ =>
    .bind (Unsigned.add_avoids _ _) fun _ _ => .ok _

end StalkLedger
