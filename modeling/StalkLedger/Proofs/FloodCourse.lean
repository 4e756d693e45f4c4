import StalkLedger.Proofs.Apportionment

/-!
# The course of a flood and what is owed

Beginning a flood and ending it change nothing of what any share is owed (`FloodBook.owing_opened`,
`FloodBook.owing_closed`).  A payout raises the payout per root by some steps, and what a share is
owed by these steps, on the roots that the flood is paid on (`FloodBook.owing_raised`); for the roots
locked for the flood together this is no more than what the payout takes out of the unallocated
amount (`FloodBook.paid_spec`).

Books stay sound and shares are carried on through all of these.
-/

namespace StalkLedger

namespace FloodBook

variable {book book' : FloodBook} {epoch start : Epoch} {roots : Amount} {share : FloodShare}

/-! ### Raising the payout per root -/

/-- Books that were sound in an epoch are sound in every later one. -/
theorem Sound.later {epoch' : Epoch} (h : book.Sound epoch) (hlt : epoch < epoch') :
    book.Sound epoch' := by
  refine ⟨h.active, ?_, h.order, ?_⟩
  · intro start flood hf
    obtain ⟨hle, hrest⟩ := h.record hf
    exact ⟨Nat.le_trans hle (Nat.le_of_lt hlt), hrest⟩
  · rintro rfl
    exact absurd hlt (Nat.not_lt_zero _)

/-- When the payout per root is raised, a share is owed the steps on the roots it is paid on. -/
theorem pending_raised {steps : ℤ} (hs : book.Carries share)
    (hindex : (book'.payoutPerRoot.toNat : ℤ) = book.payoutPerRoot.toNat + steps)
    (hend : ∀ start' flood, book.floods.get? start' = some flood →
      book'.endOf start' = book.endOf start' + if start' = start then steps else 0)
    (roots : Amount) :
    book'.pending roots share =
      book.pending roots share + steps * (rate start roots share).toNat := by
  cases ht : share.trackedFlood with
  | none =>
    rw [pending_of_none ht, pending_of_none ht, rate, ht, if_neg (Option.some_ne_none _).symm,
      hindex]
    ring
  | some start' =>
    obtain ⟨flood, hf, -⟩ := hs.tracked ht
    rw [pending, pending, rate, ht]
    dsimp only
    rw [hend start' flood hf, hindex]
    by_cases hsame : start' = start
    · rw [if_pos hsame, if_pos (congrArg some hsame)]
      ring
    · rw [if_neg hsame, if_neg fun h => hsame (Option.some.inj h)]
      ring

/-- What is owed does not change with a book whose indices are the same. -/
theorem owing_congr (hs : book.Carries share) (hindex : book'.payoutPerRoot = book.payoutPerRoot)
    (hend : ∀ start' flood, book.floods.get? start' = some flood →
      book'.endOf start' = book.endOf start') (roots : Amount) :
    book'.owing roots share = book.owing roots share := by
  -- No steps of any flood.
  have hends (start' : Epoch) (flood : Flood) (hf : book.floods.get? start' = some flood) :
      book'.endOf start' = book.endOf start' + if start' = 0 then (0 : ℤ) else 0 := by
    rw [hend start' flood hf, ite_self, add_zero]
  rw [owing, pending_raised hs (by rw [hindex, add_zero]) hends, zero_mul, add_zero, owing]

/-! ### A flood begins -/

/-- The records of earlier floods are kept when another flood begins. -/
theorem get?_opened (hnew : ∀ {start flood}, book.floods.get? start = some flood → start < epoch)
    {flood : Flood} (hf : book.floods.get? start = some flood) :
    (book.opened epoch roots).floods.get? start = some flood := by
  refine (SortedMap.get?_insert_of_ne _ ?_ _).trans hf
  rintro rfl
  exact Nat.lt_irrefl _ (hnew hf)

/-- A flood that begins is recorded with the new epoch, behind all others. -/
theorem Sound.opened {epoch' : Epoch} (h : book.Sound epoch) (hlt : epoch < epoch')
    (roots : Amount) : (book.opened epoch' roots).Sound epoch' := by
  have hnew {start flood} (hf : book.floods.get? start = some flood) : start < epoch' :=
    Nat.lt_of_le_of_lt (h.record hf).1 hlt
  refine ⟨?_, ?_, ?_, ?_⟩
  · rintro start ⟨⟩
    exact ⟨_, SortedMap.get?_insert_self .., rfl⟩
  · intro start flood hf
    rw [FloodBook.opened, SortedMap.get?_insert] at hf
    split at hf
    next heq =>
      cases hf
      exact ⟨Nat.le_of_eq (congrArg Unsigned.toNat heq), Nat.le_refl _, Nat.le_refl _⟩
    next => exact ⟨Nat.le_of_lt (hnew hf), (h.record hf).2⟩
  · rintro start current start' flood ⟨⟩ hcurrent hf hne
    rw [FloodBook.opened, SortedMap.get?_insert_self] at hcurrent
    cases hcurrent
    exact (h.record ((SortedMap.get?_insert_of_ne _ hne _).symm.trans hf)).2.2
  · rintro rfl
    exact absurd hlt (Nat.not_lt_zero _)

/-- A share that has joined no flood has not settled beyond the beginning of the new one. -/
theorem Carries.opened (hs : book.Carries share)
    (hnew : ∀ {start flood}, book.floods.get? start = some flood → start < epoch)
    (roots : Amount) : (book.opened epoch roots).Carries share := by
  refine ⟨hs.checkpoint, ?_, ?_⟩
  · intro start ht
    obtain ⟨flood, hf, hle⟩ := hs.tracked ht
    exact ⟨flood, get?_opened hnew hf, hle⟩
  · rintro - start flood ⟨⟩ hf
    rw [FloodBook.opened, SortedMap.get?_insert_self] at hf
    cases hf
    exact hs.checkpoint

/-! ### A flood ends -/

/-- Closing a flood leaves its indices, and those of the others, as they are. -/
theorem get?_closed (hon : book.active = some start) (hb : book.Sound epoch) (epoch' : Epoch)
    (start' : Epoch) : ∃ mark : Flood → Flood,
      (book.closed start epoch').floods.get? start' = (book.floods.get? start').map mark ∧
        ∀ flood, (mark flood).startIndex = flood.startIndex ∧
          (mark flood).endIndex = flood.endIndex := by
  obtain ⟨current, hcurrent, -⟩ := hb.active hon
  have hclosed : (book.closed start epoch').floods =
      book.floods.insert start { current with endedAt := some epoch' } := by
    rw [closed, hcurrent]
  rw [hclosed, SortedMap.get?_insert]
  split
  next heq =>
    rw [heq, hcurrent]
    exact ⟨fun flood => { flood with endedAt := some epoch' }, rfl, fun _ => ⟨rfl, rfl⟩⟩
  next => exact ⟨id, Option.map_id'.symm, fun _ => ⟨rfl, rfl⟩⟩

/-- When a flood ends, none is on, and the amounts of the book stay. -/
theorem active_closed (book : FloodBook) (start epoch : Epoch) :
    (book.closed start epoch).active = none ∧
      (book.closed start epoch).payoutPerRoot = book.payoutPerRoot ∧
        (book.closed start epoch).totalPaid = book.totalPaid ∧
          (book.closed start epoch).unallocated = book.unallocated ∧
            (book.closed start epoch).totalClaimed = book.totalClaimed := by
  unfold closed
  split
  · exact ⟨rfl, rfl, rfl, rfl, rfl⟩
  · exact ⟨rfl, rfl, rfl, rfl, rfl⟩

/-- The record of a flood that ends keeps its stretch. -/
theorem Sound.closed (h : book.Sound epoch) (hon : book.active = some start) (epoch' : Epoch) :
    (book.closed start epoch').Sound epoch := by
  obtain ⟨hactive, hindex, -⟩ := active_closed book start epoch'
  refine ⟨?_, ?_, ?_, fun hzero => ⟨hindex.trans (h.quiet hzero).1, hactive⟩⟩
  · intro start' hsome
    rw [hactive] at hsome
    cases hsome
  · intro start' flood hf
    obtain ⟨mark, hget, hmark⟩ := get?_closed hon h epoch' start'
    obtain ⟨before, hbefore, rfl⟩ := Option.map_eq_some_iff.mp (hget.symm.trans hf)
    rw [(hmark before).1, (hmark before).2, hindex]
    exact h.record hbefore
  · intro start' _ _ _ hsome
    rw [hactive] at hsome
    cases hsome

/-- A share stays on the flood that it has joined, also when this flood ends. -/
theorem Carries.closed (hs : book.Carries share) (hb : book.Sound epoch)
    (hon : book.active = some start) (epoch' : Epoch) :
    (book.closed start epoch').Carries share := by
  obtain ⟨hactive, hindex, -⟩ := active_closed book start epoch'
  refine ⟨?_, ?_, ?_⟩
  · rw [hindex]
    exact hs.checkpoint
  · intro start' ht
    obtain ⟨flood, hf, hle⟩ := hs.tracked ht
    obtain ⟨mark, hget, hmark⟩ := get?_closed hon hb epoch' start'
    refine ⟨mark flood, by rw [hget, hf, Option.map_some], ?_⟩
    rw [(hmark flood).2]
    exact hle
  · intro _ start' _ hsome
    rw [hactive] at hsome
    cases hsome

/-- **The end of a flood** changes nothing of what a share is owed. -/
theorem owing_closed (hs : book.Carries share) (hb : book.Sound epoch)
    (hon : book.active = some start) (epoch' : Epoch) (roots : Amount) :
    (book.closed start epoch').owing roots share = book.owing roots share := by
  refine owing_congr hs (active_closed book start epoch').2.1 (fun start' flood hf => ?_) roots
  obtain ⟨mark, hget, hmark⟩ := get?_closed hon hb epoch' start'
  rw [endOf, hget, hf, Option.map_some, Option.elim_some, (hmark flood).2, endOf, hf,
    Option.elim_some]

/-- **The beginning of a flood** changes nothing of what a share is owed. -/
theorem owing_opened (hs : book.Carries share)
    (hnew : ∀ {start flood}, book.floods.get? start = some flood → start < epoch)
    (locked roots : Amount) :
    (book.opened epoch locked).owing roots share = book.owing roots share := by
  refine owing_congr hs ?_ (fun start flood hf => ?_) roots
  · rfl
  · rw [endOf_eq (get?_opened hnew hf), endOf_eq hf]

/-! ### A flood is paid -/

/-- The flood that is on has been paid: the payout per root is raised by some steps, and the flood
ends where it is now. -/
structure Raised (book book' : FloodBook) (start : Epoch) (steps : ℕ) : Prop where
  active : book'.active = book.active
  index : book'.payoutPerRoot.toNat = book.payoutPerRoot.toNat + steps
  records : ∀ start', ∃ mark : Flood → Flood,
    book'.floods.get? start' = (book.floods.get? start').map mark ∧
      ∀ record, book.floods.get? start' = some record →
        (mark record).startIndex = record.startIndex ∧ (mark record).roots = record.roots ∧
          (mark record).endIndex.toNat =
            record.endIndex.toNat + if start' = start then steps else 0

/-- **A payout** raises the payout per root by some steps.  What the locked roots are owed for these
is no more than what is taken out of the unallocated amount. -/
theorem paid_spec {flood : Flood} {amount : Amount} (hf : book.floods.get? start = some flood)
    (hend : flood.endIndex = book.payoutPerRoot) (h : book.paid start flood amount = .ok book') :
    ∃ steps allocated : ℕ, book.Raised book' start steps ∧
      steps * flood.roots.toNat ≤ precision.toNat * allocated ∧
        book'.totalClaimed = book.totalClaimed ∧
          book'.totalPaid.toNat = book.totalPaid.toNat + amount.toNat ∧
            book'.unallocated.toNat + allocated = book.unallocated.toNat + amount.toNat := by
  obtain ⟨available, totalPaid, havailable, htotal, ⟨-, rfl⟩ | ⟨-, perRoot, unallocated, index, paid,
    -, hrest, hindex, rfl⟩⟩ := paid_stages h
  · -- Nobody is to be paid, so the amount waits.
    refine ⟨0, 0, ⟨rfl, rfl, fun start' => ⟨id, Option.map_id'.symm, ?_⟩⟩, ?_, rfl, htotal,
      havailable⟩
    · intro record _
      rw [ite_self]
      exact ⟨rfl, rfl, rfl⟩
    · rw [Nat.zero_mul]
      exact Nat.zero_le _
  refine ⟨perRoot.toNat, allotment perRoot.toNat flood.roots.toNat, ⟨rfl, hindex, fun start' => ?_⟩,
    le_mul_allotment _ _, rfl, htotal, hrest.trans havailable⟩
  rw [SortedMap.get?_insert]
  by_cases hsame : start' = start
  · subst hsame
    rw [if_pos rfl, hf]
    refine ⟨fun record => { record with endIndex := index, paid }, rfl, ?_⟩
    rintro record ⟨⟩
    rw [if_pos rfl, hend]
    exact ⟨rfl, rfl, hindex⟩
  · rw [if_neg hsame]
    refine ⟨id, Option.map_id'.symm, fun record _ => ⟨rfl, rfl, ?_⟩⟩
    rw [if_neg hsame]
    rfl

/-- The end of the flood that is paid moves along with the payout per root. -/
theorem Sound.raised {steps : ℕ} (hb : book.Sound epoch) (hon : book.active = some start)
    (h : book.Raised book' start steps) : book'.Sound epoch := by
  refine ⟨?_, ?_, ?_, ?_⟩
  · intro start' hon'
    obtain rfl := Option.some.inj (hon.symm.trans (h.active.symm.trans hon'))
    obtain ⟨current, hcurrent, hend⟩ := hb.active hon
    obtain ⟨mark, hget, hmark⟩ := h.records start
    refine ⟨mark current, by rw [hget, hcurrent, Option.map_some], Unsigned.ext ?_⟩
    rw [(hmark current hcurrent).2.2, if_pos rfl, hend, h.index]
  · intro start' flood' hf'
    obtain ⟨mark, hget, hmark⟩ := h.records start'
    obtain ⟨before, hbefore, rfl⟩ := Option.map_eq_some_iff.mp (hget.symm.trans hf')
    obtain ⟨hle, hordered, hbelow⟩ := hb.record hbefore
    obtain ⟨hs, -, he⟩ := hmark before hbefore
    refine ⟨hle, ?_, ?_⟩
    · rw [Unsigned.le_iff, hs, he]
      exact Nat.le_add_right_of_le hordered
    · rw [Unsigned.le_iff, he, h.index]
      split
      · exact Nat.add_le_add_right hbelow _
      · exact Nat.le_add_right_of_le hbelow
  · intro start' current' other flood' hon' hcurrent' hf' hne
    obtain rfl := Option.some.inj (hon.symm.trans (h.active.symm.trans hon'))
    obtain ⟨mark, hget, hmark⟩ := h.records start
    obtain ⟨mark', hget', hmark'⟩ := h.records other
    obtain ⟨before, hbefore, rfl⟩ := Option.map_eq_some_iff.mp (hget.symm.trans hcurrent')
    obtain ⟨before', hbefore', rfl⟩ := Option.map_eq_some_iff.mp (hget'.symm.trans hf')
    rw [Unsigned.le_iff, (hmark before hbefore).1, (hmark' before' hbefore').2.2, if_neg hne]
    exact hb.order hon hbefore hbefore' hne
  · intro hzero
    have hnone := (hb.quiet hzero).2
    rw [hon] at hnone
    cases hnone

/-- No share has settled beyond the payout per root, if that only rises. -/
theorem Carries.raised {steps : ℕ} (hs : book.Carries share) (h : book.Raised book' start steps) :
    book'.Carries share := by
  refine ⟨?_, ?_, ?_⟩
  · rw [Unsigned.le_iff, h.index]
    exact Nat.le_add_right_of_le hs.checkpoint
  · intro start' ht
    obtain ⟨flood', hf', hle⟩ := hs.tracked ht
    obtain ⟨mark, hget, hmark⟩ := h.records start'
    refine ⟨mark flood', by rw [hget, hf', Option.map_some], ?_⟩
    rw [Unsigned.le_iff, (hmark flood' hf').2.2]
    exact Nat.le_add_right_of_le hle
  · intro ht start' flood' hon' hf'
    obtain ⟨mark, hget, hmark⟩ := h.records start'
    obtain ⟨before, hbefore, rfl⟩ := Option.map_eq_some_iff.mp (hget.symm.trans hf')
    rw [Unsigned.le_iff, (hmark before hbefore).1]
    exact hs.untracked ht (h.active.symm.trans hon') hbefore

/-- What a share is owed of a payout. -/
theorem owing_raised {steps : ℕ} (hs : book.Carries share) (h : book.Raised book' start steps)
    (roots : Amount) :
    book'.owing roots share = book.owing roots share + steps * (rate start roots share).toNat := by
  have hends (start' : Epoch) (record : Flood) (hget : book.floods.get? start' = some record) :
      book'.endOf start' = book.endOf start' + if start' = start then (steps : ℤ) else 0 := by
    obtain ⟨mark, hget', hmark⟩ := h.records start'
    rw [endOf, hget', hget, Option.map_some, Option.elim_some, (hmark record hget).2.2,
      endOf_eq hget]
    push_cast
    rfl
  rw [owing, pending_raised hs (by rw [h.index, Nat.cast_add]) hends, owing, add_assoc]

end FloodBook

end StalkLedger
