/-
What a buffer spool holds: `enforce_limits` stops at the longest suffix of the
tail within the limit (`enforceLimits_spec`).
-/
import Logjet.Lib.Suffix
import Logjet.Spool.Proofs.Buffer

namespace Logjet

open List Reference Suffix Transition

def totalSize (records : List WireRecord) : Nat := (records.map recordSize).sum

def BufferLimit.Admits : BufferLimit → List WireRecord → Prop
  | .bytes maxBytes, records => totalSize records ≤ maxBytes
  | .messages maxMessages, records => records.length ≤ maxMessages

theorem totalSize_append (records records' : List WireRecord) : totalSize (records ++ records')
      = totalSize records + totalSize records' := by simp [totalSize]

variable {records records' : List WireRecord} {limit : BufferLimit}

theorem totalSize_sublist (h : records'.Sublist records) : totalSize records' ≤ totalSize records :=
  (h.map recordSize).sum_le_sum fun _ _ => Nat.zero_le _

theorem BufferLimit.Admits.suffix (h : limit.Admits records)
    (hsuffix : records' <:+ records) : limit.Admits records' := by
  cases limit with
  | bytes maxBytes => exact Nat.le_trans (totalSize_sublist hsuffix.sublist) h
  | messages maxMessages => exact Nat.le_trans hsuffix.length_le h

theorem BufferLimit.Admits.init (records : List WireRecord) (r : WireRecord)
    (h : limit.Admits (records ++ [r])) : limit.Admits records := by
  cases limit with
  | bytes maxBytes =>
    simp only [Admits, totalSize_append] at h ⊢
    omega
  | messages maxMessages =>
    simp only [Admits, length_append] at h ⊢
    omega

theorem BufferLimit.admits_nil (limit : BufferLimit) : limit.Admits [] := by
  cases limit with
  | bytes maxBytes => exact Nat.zero_le _
  | messages maxMessages => exact Nat.zero_le _

namespace BufferSpool

def tail (self : BufferSpool) : List WireRecord := self.records.drop self.keepMessages

variable {sp : BufferSpool}

theorem overLimit_iff (h : sp.tailBytes = totalSize sp.tail) :
    sp.overLimit = true ↔ ¬ sp.limit.Admits sp.tail := by
  unfold overLimit
  cases sp.limit with
  | bytes maxBytes => simp [BufferLimit.Admits, h]
  | messages maxMessages =>
    simp only [BufferLimit.Admits, tailLen, tail, length_drop,
      decide_eq_true_eq, Nat.not_le, gt_iff_lt]

theorem tail_eq_cons (h : sp.records.length > sp.keepMessages) :
    sp.tail = sp.records.get ⟨sp.keepMessages, h⟩ :: sp.records.drop (sp.keepMessages + 1) :=
  drop_eq_getElem_cons h

theorem eraseIdx_keepMessages (h : sp.records.length > sp.keepMessages) :
    (sp.records.eraseIdx sp.keepMessages).take sp.keepMessages = sp.records.take sp.keepMessages
      ∧ (sp.records.eraseIdx sp.keepMessages).drop sp.keepMessages
        = sp.records.drop (sp.keepMessages + 1) := by
  have hlength : (sp.records.take sp.keepMessages).length = sp.keepMessages := by
    rw [length_take]
    omega
  rw [eraseIdx_eq_take_drop_succ]
  exact ⟨take_left' hlength, drop_left' hlength⟩

theorem enforceLimits_spec (sp : BufferSpool) (h : sp.tailBytes = totalSize sp.tail) :
    ∃ kept, Longest sp.limit.Admits sp.tail kept
      ∧ sp.enforceLimits = { sp with
          records := sp.records.take sp.keepMessages ++ kept
          tailBytes := totalSize kept } := by
  induction sp using enforceLimits.induct with
  | case1 sp hover ih =>
    rw [enforceLimits, dif_pos hover]
    have htail := tail_eq_cons hover.2
    obtain ⟨hhead, hrest⟩ := eraseIdx_keepMessages hover.2
    have hbytes : sp.tailBytes - recordSize (sp.records.get ⟨sp.keepMessages, hover.2⟩)
        = totalSize (sp.records.drop (sp.keepMessages + 1)) := by
      rw [h, htail, totalSize, map_cons, sum_cons, Nat.add_sub_cancel_left]
      rfl
    obtain ⟨kept, hlongest, heq⟩ := ih (by
      rw [tail, hrest]
      exact hbytes)
    rw [tail, hrest] at hlongest
    refine ⟨kept, ?_, ?_⟩
    · rw [htail]
      apply hlongest.cons_of_not
      rw [← htail]
      exact (overLimit_iff h).mp hover.1
    · rw [heq, hhead]
  | case2 sp hover =>
    rw [enforceLimits, dif_neg hover]
    refine ⟨sp.tail, Longest.self ?_, ?_⟩
    · by_cases hwithin : sp.limit.Admits sp.tail
      · exact hwithin
      · have hshort : sp.tail = [] := by
          apply drop_eq_nil_of_le
          exact Nat.not_lt.mp fun hlt => hover ⟨(overLimit_iff h).mpr hwithin, hlt⟩
        rw [hshort]
        exact BufferLimit.admits_nil _
    · rw [← h, tail, take_append_drop]

def Addressable (records : List WireRecord) : Prop := totalSize records < 2 ^ 64

variable {k : Nat} {all kept : List WireRecord}

theorem drop_take_append (h : kept <:+ all.drop k) : (all.take k ++ kept).drop k = kept := by
  by_cases hfull : k ≤ all.length
  · exact drop_left' (length_take_of_le hfull)
  · rw [drop_eq_nil_of_le (by omega)] at h
    rw [suffix_nil.mp h, append_nil, drop_eq_nil_of_le]
    rw [length_take]
    omega

theorem append_eq (h : sp.tailBytes = totalSize sp.tail) {r : WireRecord}
    (hmem : Addressable (sp.records ++ [r])) : ∃ kept, Longest sp.limit.Admits
        ((sp.records ++ [r]).drop sp.keepMessages) kept
      ∧ sp.append r = { sp with
          records := (sp.records ++ [r]).take sp.keepMessages ++ kept
          tailBytes := totalSize kept } := by
  have hbytes : (if sp.records.length ≥ sp.keepMessages
      then min (sp.tailBytes + recordSize r) usizeMax else sp.tailBytes)
      = totalSize ((sp.records ++ [r]).drop sp.keepMessages) := by
    split
    case isTrue hfull =>
      have hsum : sp.tailBytes + recordSize r
          = totalSize ((sp.records ++ [r]).drop sp.keepMessages) := by
        rw [drop_append_of_le_length hfull, totalSize_append, h]
        rfl
      rw [hsum]
      have hle := totalSize_sublist (drop_sublist sp.keepMessages (sp.records ++ [r]))
      rw [Addressable] at hmem
      exact Nat.min_eq_left (by unfold usizeMax; omega)
    case isFalse hfull =>
      have hnone : ∀ records : List WireRecord, records.length ≤ sp.keepMessages →
          records.drop sp.keepMessages = [] := fun _ hle => drop_eq_nil_of_le hle
      rw [h, tail, hnone _ (by omega), hnone _ (by simp; omega)]
  unfold append
  simp only [hbytes]
  exact enforceLimits_spec { sp with
    records := sp.records ++ [r]
    tailBytes := totalSize ((sp.records ++ [r]).drop sp.keepMessages) } rfl

structure Kept (config : BufferConfig) (appended : List WireRecord) (sp : BufferSpool) : Prop where
  limit : sp.limit = config.limit
  keepMessages : sp.keepMessages = config.keepMessages
  records : sp.records.Sublist appended
  tailBytes : sp.tailBytes = totalSize sp.tail
  within : sp.limit.Admits sp.tail

section Kept

variable {config : BufferConfig} {appended : List WireRecord}

theorem Kept.append (h : Kept config appended sp) {r : WireRecord}
    (hmem : Addressable (appended ++ [r])) : Kept config (appended ++ [r]) (sp.append r) := by
  have hsub := h.records.append_right [r]
  have hmem' : Addressable (sp.records ++ [r]) := Nat.lt_of_le_of_lt (totalSize_sublist hsub) hmem
  have hrecords := (append_sublist sp r).trans hsub
  obtain ⟨kept, hlongest, heq⟩ := append_eq h.tailBytes hmem'
  have htail : (sp.append r).tail = kept := by
    rw [heq]
    exact drop_take_append hlongest.suffix
  refine ⟨?_, ?_, hrecords, ?_, ?_⟩
  · rw [heq]
    exact h.limit
  · rw [heq]
    exact h.keepMessages
  · rw [htail, heq]
  · rw [htail, heq]
    exact hlongest.has

theorem drop_suffix_drop {records records' : List WireRecord} (k : Nat)
    (h : records' <:+ records) : records'.drop k <:+ records.drop k := by
  obtain ⟨before, rfl⟩ := h
  have hdrop : records'.drop k = ((before ++ records').drop k).drop before.length := by
    rw [drop_drop, Nat.add_comm, drop_append]
    simp
  rw [hdrop]
  exact drop_suffix _ _

theorem Kept.consumeThrough (h : Kept config appended sp) (seq : UInt64) :
    Kept config appended (sp.consumeThrough seq) where
  limit := h.limit
  keepMessages := h.keepMessages
  records := (consumeThrough_sublist sp seq).trans h.records
  tailBytes := rfl
  within := by
    apply h.within.suffix
    exact drop_suffix_drop sp.keepMessages (dropWhile_suffix _)

theorem Kept.run {fresh : UInt64} {events : List SpoolEvent} {st : BufferServing}
    (hrun : Run BufferStep ⟨new config fresh, []⟩ events st)
    (hsize : Addressable (appendedBy events)) : Kept config (appendedBy events) st.spool := by
  induction hrun with
  | nil => exact ⟨rfl, rfl, .slnil, by simp [new, tail, totalSize], by
      simpa [new, tail] using BufferLimit.admits_nil _⟩
  | @snoc events _ _ e _ hstep ih =>
    rw [appendedBy_snoc] at hsize ⊢
    have h := ih (Nat.lt_of_le_of_lt (totalSize_sublist (sublist_append_left _ _)) hsize)
    cases hstep with
    | append r => exact h.append hsize
    | consumeThrough seq =>
      have hkept := h.consumeThrough seq
      rwa [show appendedBy [.consumeThrough seq] = [] from rfl, append_nil]
    | newCursor lastSeq => rwa [show appendedBy [.newCursor lastSeq] = [] from rfl, append_nil]
    | next hc => rwa [show appendedBy [.next _ _] = [] from rfl, append_nil]

end Kept

/-- The tail's byte counter is exact and within the limit. -/
theorem tail_bounded (config : BufferConfig) (fresh : UInt64)
    {events : List SpoolEvent} {st : BufferServing}
    (hrun : Run BufferStep ⟨new config fresh, []⟩ events st)
    (hsize : ((appendedBy events).map recordSize).sum < 2 ^ 64) : st.spool.tailBytes
        = ((st.spool.records.drop config.keepMessages).map recordSize).sum ∧ config.limit.Admits
        (st.spool.records.drop config.keepMessages) := by
  have h := Kept.run hrun hsize
  rw [← h.keepMessages, ← h.limit]
  exact ⟨h.tailBytes, h.within⟩

theorem tail_bounded_consumed : ∃ events st, Run BufferStep ⟨new ⟨.bytes 50, 1⟩ 7, []⟩ events st
      ∧ st.spool.records.map OwnedRecord.seq = [3, 4] ∧ st.spool.tailBytes = 22
      ∧ (st.spool.tailBytes = ((st.spool.records.drop 1).map recordSize).sum
        ∧ BufferLimit.Admits (.bytes 50) (st.spool.records.drop 1)) := by
  have hrun := Run.nil.snoc (@BufferStep.append (new ⟨.bytes 50, 1⟩ 7) [] (smallRecord 1))
    |>.snoc (.append (smallRecord 2)) |>.snoc (.append (smallRecord 3))
    |>.snoc (.append (smallRecord 4)) |>.snoc (.consumeThrough 1)
  exact ⟨_, _, hrun, by decide +kernel, by decide +kernel,
    tail_bounded ⟨.bytes 50, 1⟩ 7 hrun (by decide +kernel)⟩

def appendAll (config : BufferConfig) (fresh : UInt64) (records : List WireRecord) : BufferSpool :=
  records.foldl (fun sp r => sp.append r) (new config fresh)

theorem appendAll_snoc (config : BufferConfig) (fresh : UInt64)
    (records : List WireRecord) (r : WireRecord) : appendAll config fresh (records ++ [r])
      = (appendAll config fresh records).append r := by simp [appendAll]

def InMemory (config : BufferConfig) (fresh : UInt64) (records : List WireRecord) : Prop :=
  ∀ before r, before ++ [r] <+: records →
    Addressable ((appendAll config fresh before).records ++ [r])

theorem appendAll_sublist (config : BufferConfig) (fresh : UInt64) (records : List WireRecord) :
    (appendAll config fresh records).records.Sublist records := by
  induction records using List.reverseRecOn with
  | nil => exact .slnil
  | append_singleton records r ih =>
    rw [appendAll_snoc]
    exact (append_sublist _ r).trans (ih.append_right _)

theorem inMemory_of_addressable {config : BufferConfig} {fresh : UInt64}
    {records : List WireRecord} (h : Addressable records) : InMemory config fresh records := by
  intro before r hstarts
  have hsub := ((appendAll_sublist config fresh before).append_right [r]).trans hstarts.sublist
  exact Nat.lt_of_le_of_lt (totalSize_sublist hsub) h

structure Retains (config : BufferConfig) (all : List WireRecord)
    (sp : BufferSpool) (kept : List WireRecord) : Prop where
  limit : sp.limit = config.limit
  keepMessages : sp.keepMessages = config.keepMessages
  records : sp.records = all.take config.keepMessages ++ kept
  longest : Longest config.limit.Admits (all.drop config.keepMessages) kept
  tailBytes : sp.tailBytes = totalSize kept

theorem append_after_take (h : kept <:+ all.drop k) (r : WireRecord) :
    (all.take k ++ kept ++ [r]).take k = (all ++ [r]).take k
      ∧ (k ≤ all.length ∧ (all.take k ++ kept ++ [r]).drop k = kept ++ [r]
          ∧ (all ++ [r]).drop k = all.drop k ++ [r] ∨ (all.take k ++ kept ++ [r]).drop k = []
          ∧ (all ++ [r]).drop k = []) := by
  by_cases hfull : k ≤ all.length
  · have hlength := length_take_of_le hfull
    rw [append_assoc, take_left' hlength, drop_left' hlength, take_append_of_le_length hfull,
      drop_append_of_le_length hfull]
    exact ⟨rfl, Or.inl ⟨hfull, rfl, rfl⟩⟩
  · rw [drop_eq_nil_of_le (by omega)] at h
    have htake : all.take k = all := take_of_length_le (by omega)
    rw [suffix_nil.mp h, append_nil, htake]
    refine ⟨rfl, Or.inr ⟨?_, ?_⟩⟩ <;>
    · apply drop_eq_nil_of_le
      simp
      omega

theorem Retains.append {config : BufferConfig} {all kept : List WireRecord}
    (h : Retains config all sp kept) {r : WireRecord} (hmem : Addressable (sp.records ++ [r])) :
    ∃ kept', Retains config (all ++ [r]) (sp.append r) kept' := by
  have htail : sp.tail = kept := by
    rw [tail, h.records, h.keepMessages]
    exact drop_take_append h.longest.suffix
  obtain ⟨kept', hlongest, heq⟩ := append_eq (by rw [htail, h.tailBytes]) hmem
  rw [h.limit, h.keepMessages, h.records] at hlongest
  obtain ⟨htake, hdrop⟩ := append_after_take h.longest.suffix r
  refine ⟨kept', ?_, ?_, ?_, ?_, ?_⟩
  · rw [heq]
    exact h.limit
  · rw [heq]
    exact h.keepMessages
  · rw [heq, h.records, h.keepMessages, htake]
  · rcases hdrop with ⟨-, hkept, hall⟩ | ⟨hkept, hall⟩
    · rw [hkept] at hlongest
      rw [hall]
      exact h.longest.snoc BufferLimit.Admits.init hlongest
    · rw [hkept] at hlongest
      rw [hall]
      exact hlongest
  · rw [heq]

theorem appendAll_retains (config : BufferConfig) (fresh : UInt64)
    (records : List WireRecord) (hmem : InMemory config fresh records) :
    ∃ kept, Retains config records (appendAll config fresh records) kept := by
  induction records using List.reverseRecOn with
  | nil =>
    refine ⟨[], rfl, rfl, by simp [appendAll, new], ?_, rfl⟩
    rw [drop_nil]
    exact Longest.self (BufferLimit.admits_nil _)
  | append_singleton records r ih =>
    obtain ⟨kept, h⟩ := ih fun before a hstarts => hmem before a (hstarts.trans (prefix_append _ _))
    rw [appendAll_snoc]
    exact h.append (hmem records r (prefix_refl _))

/-- The first messages stay, and the longest tail that fits. -/
theorem retention_documented (config : BufferConfig) (fresh : UInt64)
    (records : List WireRecord) (hmem : InMemory config fresh records) :
    ∃ kept, (appendAll config fresh records).records = records.take config.keepMessages ++ kept
      ∧ kept <:+ records.drop config.keepMessages ∧ config.limit.Admits kept
      ∧ ∀ other, other <:+ records.drop config.keepMessages →
        config.limit.Admits other → other.length ≤ kept.length := by
  obtain ⟨kept, h⟩ := appendAll_retains config fresh records hmem
  exact ⟨kept, h.records, h.longest.suffix, h.longest.has, h.longest.longest⟩

def mixedRecords : List WireRecord :=
  [smallRecord 1, smallRecord 2,
    { smallRecord 3 with payload := List.replicate 8 42 }, smallRecord 4]

theorem retention_documented_mixed :
    (appendAll ⟨.bytes 50, 1⟩ 7 mixedRecords).records.map OwnedRecord.seq = [1, 4]
      ∧ ∃ kept, (appendAll ⟨.bytes 50, 1⟩ 7 mixedRecords).records = mixedRecords.take 1 ++ kept
        ∧ kept <:+ mixedRecords.drop 1 ∧ BufferLimit.Admits (.bytes 50) kept
        ∧ ∀ other, other <:+ mixedRecords.drop 1 → BufferLimit.Admits (.bytes 50) other →
            other.length ≤ kept.length :=
  ⟨by decide +kernel, retention_documented ⟨.bytes 50, 1⟩ 7 mixedRecords
    (inMemory_of_addressable (by unfold Addressable; decide +kernel))⟩

end BufferSpool

end Logjet
