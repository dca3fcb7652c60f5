/-
The cursors of a buffer spool are exact (`nextForCursor_spec`). Over a run each
is given every record that it passed and that is still there (`Served`).
-/
import Logjet.Spool.BufferRun
import Logjet.Spool.Proofs.Run

namespace Logjet

open List Reference Transition

namespace BufferSpool

variable {sp : BufferSpool} {c : BufferReplayCursor}

def Behind (sp : BufferSpool) (c : BufferReplayCursor) : Prop :=
  ∀ r ∈ sp.records.take c.nextIndex, r.seq ≤ c.lastSeq

theorem nextForCursor_spec (h : sp.indexStillAligned c = true → sp.Behind c) :
    (sp.nextForCursor c = (none, c) ∧ ∀ r ∈ sp.records, r.seq ≤ c.lastSeq)
      ∨ ∃ before r after, sp.records = before ++ r :: after
        ∧ (∀ q ∈ before, q.seq ≤ c.lastSeq) ∧ c.lastSeq < r.seq
        ∧ sp.nextForCursor c = (some r, ⟨before.length + 1, r.seq⟩) := by
  cases hfast : sp.recordAtCursor c with
  | some r =>
    right
    rw [recordAtCursor] at hfast
    split at hfast
    case isFalse => cases hfast
    case isTrue haligned =>
      obtain ⟨hget, habove⟩ := Option.filter_eq_some_iff.mp hfast
      obtain ⟨hlt, hr⟩ := List.getElem?_eq_some_iff.mp hget
      refine ⟨sp.records.take c.nextIndex, r, sp.records.drop (c.nextIndex + 1), ?_, h haligned,
        by simpa using habove, ?_⟩
      · rw [← hr, cons_getElem_drop_succ, take_append_drop]
      · simp only [nextForCursor, recordAtCursor, if_pos haligned, hfast,
          length_take, Nat.min_eq_left (Nat.le_of_lt hlt)]
  | none =>
    cases hfind : sp.records.findIdx? fun r => r.seq > c.lastSeq with
    | none =>
      left
      refine ⟨by simp only [nextForCursor, hfast, hfind], ?_⟩
      intro r hr
      simpa using findIdx?_eq_none_iff.mp hfind r hr
    | some i =>
      right
      obtain ⟨hlt, habove, hbefore⟩ := findIdx?_eq_some_iff_getElem.mp hfind
      refine ⟨sp.records.take i, sp.records[i], sp.records.drop (i + 1),
        ?_, ?_, by simpa using habove, ?_⟩
      · rw [cons_getElem_drop_succ, take_append_drop]
      · intro q hq
        obtain ⟨j, hj, rfl⟩ := mem_take_iff_getElem.mp hq
        simpa using hbefore j (by omega)
      · simp only [nextForCursor, hfast, hfind, getElem?_eq_getElem hlt, length_take,
          Nat.min_eq_left (Nat.le_of_lt hlt)]

theorem nextForCursor_fst (h : sp.indexStillAligned c = true → sp.Behind c) : (sp.nextForCursor c).1
      = sp.records.find? fun r => c.lastSeq < r.seq := by
  rcases nextForCursor_spec h with ⟨hnone, hall⟩
    | ⟨before, r, after, hsplit, hbefore, habove, hsome⟩
  · rw [hnone]
    symm
    rw [find?_eq_none]
    intro r hr
    simpa using hall r hr
  · rw [hsome]
    symm
    rw [find?_eq_some_iff_append]
    refine ⟨by simpa using habove, before, after, hsplit, ?_⟩
    intro q hq
    simpa using hbefore q hq

theorem behind_of_aligned (hsorted : sp.records.Pairwise fun a b => a.seq < b.seq)
    (haligned : sp.indexStillAligned c = true) : sp.Behind c := by
  obtain ⟨index, lastSeq⟩ := c
  intro r hr
  cases index with
  | zero => cases hr
  | succ i =>
    simp only [indexStillAligned] at haligned
    split at haligned
    case h_2 => cases haligned
    case h_1 last hlast =>
      obtain ⟨hi, rfl⟩ := List.getElem?_eq_some_iff.mp hlast
      have hle : sp.records[i].seq ≤ lastSeq := by simpa using haligned
      obtain ⟨j, hj, rfl⟩ := mem_take_iff_getElem.mp hr
      simp only at hj
      rcases Nat.lt_or_ge j i with hlt | hge
      · have hseq := pairwise_iff_getElem.mp hsorted j i (by omega) hi hlt
        exact UInt64.le_of_lt (UInt64.lt_of_lt_of_le hseq hle)
      · have heq : j = i := by omega
        subst heq
        exact hle

theorem enforceLimits_sublist (sp : BufferSpool) : sp.enforceLimits.records.Sublist sp.records := by
  induction sp using enforceLimits.induct with
  | case1 sp h ih =>
    rw [enforceLimits, dif_pos h]
    exact ih.trans (eraseIdx_sublist _ _)
  | case2 sp h => rw [enforceLimits, dif_neg h]

theorem append_sublist (sp : BufferSpool) (r : WireRecord) :
    (sp.append r).records.Sublist (sp.records ++ [r]) := enforceLimits_sublist _

theorem consumeThrough_sublist (sp : BufferSpool) (seq : UInt64) :
    (sp.consumeThrough seq).records.Sublist sp.records := dropWhile_sublist _

structure Served (appended records : List WireRecord) (start : UInt64)
    (returned : List WireRecord) (c : BufferReplayCursor) : Prop where
  range : ∀ r ∈ returned, start < r.seq ∧ r.seq ≤ c.lastSeq
  appended : ∀ r ∈ returned, r ∈ appended
  increasing : returned.Pairwise fun a b => a.seq < b.seq
  last : c.lastSeq = start ∨ ∃ r ∈ returned, r.seq = c.lastSeq
  complete : ∀ r ∈ records, start < r.seq → r.seq ≤ c.lastSeq → r ∈ returned

section Served

variable {appended records returned : List WireRecord} {start : UInt64}

theorem served_start (appended records : List WireRecord)
    (h : c.lastSeq = start) : Served appended records start [] c where
  range := by
    intro r hr
    cases hr
  appended := by
    intro r hr
    cases hr
  increasing := .nil
  last := .inl h
  complete := by
    intro r _ habove hle
    rw [h] at hle
    exact absurd habove (UInt64.not_lt.mpr hle)

theorem Served.shrink (h : Served appended records start returned c)
    {records' : List WireRecord} (hsub : records'.Sublist records) :
    Served appended records' start returned c :=
  { h with complete := fun r hr => h.complete r (hsub.subset hr) }

theorem Served.append (h : Served appended records start returned c)
    {r : WireRecord} (hnew : ∀ a ∈ appended, a.seq < r.seq) :
    Served (appended ++ [r]) (records ++ [r]) start returned c where
  range := h.range
  appended := fun a ha => mem_append_left _ (h.appended a ha)
  increasing := h.increasing
  last := h.last
  complete := by
    intro a ha habove hle
    rcases mem_snoc.mp ha with ha | rfl
    · exact h.complete a ha habove hle
    · rcases h.last with hlast | ⟨b, hb, hlast⟩
      · rw [hlast] at hle
        exact absurd habove (UInt64.not_lt.mpr hle)
      · rw [← hlast] at hle
        exact absurd (hnew b (h.appended b hb)) (UInt64.not_lt.mpr hle)

theorem Served.next (h : Served appended sp.records start returned c)
    (hsorted : sp.records.Pairwise fun a b => a.seq < b.seq)
    (hsub : ∀ r ∈ sp.records, r ∈ appended) : Served appended sp.records start
      (returned ++ (sp.nextForCursor c).1.toList) (sp.nextForCursor c).2 := by
  rcases nextForCursor_spec (behind_of_aligned hsorted) with ⟨hnone, -⟩
    | ⟨before, r, after, hsplit, hbefore, habove, hsome⟩
  · rw [hnone]
    simpa using h
  · rw [hsome]
    have hr : r ∈ sp.records := by
      rw [hsplit]
      exact mem_append_right _ mem_cons_self
    have hstart : start < r.seq := by
      rcases h.last with hlast | ⟨b, hb, hlast⟩
      · exact hlast ▸ habove
      · exact UInt64.lt_trans (h.range b hb).1 (hlast ▸ habove)
    refine ⟨?_, ?_, ?_, .inr ⟨r, by simp, rfl⟩, ?_⟩
    · intro a ha
      rcases mem_snoc.mp ha with ha | rfl
      · obtain ⟨hlow, hhigh⟩ := h.range a ha
        exact ⟨hlow, UInt64.le_of_lt (UInt64.lt_of_le_of_lt hhigh habove)⟩
      · exact ⟨hstart, UInt64.le_refl _⟩
    · intro a ha
      rcases mem_snoc.mp ha with ha | ha
      · exact h.appended a ha
      · cases ha
        exact hsub r hr
    · apply pairwise_append.mpr
      refine ⟨h.increasing, pairwise_singleton _ _, ?_⟩
      intro a ha b hb
      cases mem_singleton.mp hb
      exact UInt64.lt_of_le_of_lt (h.range a ha).2 habove
    · intro a ha hlow hhigh
      rw [hsplit] at ha hsorted
      rcases mem_append.mp ha with ha' | ha'
      · refine mem_append_left _ (h.complete a ?_ hlow (hbefore a ha'))
        rw [hsplit]
        exact ha
      · rcases mem_cons.mp ha' with rfl | hafter
        · simp
        · have hlt := rel_of_pairwise_cons (pairwise_append.mp hsorted).2.1 hafter
          exact absurd hlt (UInt64.not_lt.mpr hhigh)

end Served

theorem appendedBy_snoc (events : List SpoolEvent) (e : SpoolEvent) :
    appendedBy (events ++ [e]) = appendedBy events ++ appendedBy [e] := filterMap_append

theorem returnedTo_snoc (i : Nat) (events : List SpoolEvent) (e : SpoolEvent) :
    returnedTo i (events ++ [e]) = returnedTo i events ++ returnedTo i [e] := filterMap_append

theorem returnedTo_next (i j : Nat) (found : Option WireRecord) :
    returnedTo j [.next i found] = if i = j then found.toList else [] := by
  by_cases hij : i = j
  · cases found with
    | none => simp [returnedTo]
    | some r => simp [returnedTo, hij]
  · simp [returnedTo, hij]

theorem cursorStarts_snoc (events : List SpoolEvent) (e : SpoolEvent) :
    cursorStarts (events ++ [e]) = cursorStarts events ++ cursorStarts [e] := filterMap_append

/-- What the cursors have returned, and what is left for them. -/
structure Accounted (events : List SpoolEvent) (st : BufferServing) : Prop where
  records : st.spool.records.Sublist (appendedBy events)
  created : (cursorStarts events).length = st.cursors.length
  unread : ∀ i, st.cursors.length ≤ i → returnedTo i events = []
  served : ∀ i c start, st.cursors[i]? = some c → (cursorStarts events)[i]? = some start →
      Served (appendedBy events) st.spool.records start (returnedTo i events) c

theorem accounted_new (config : BufferConfig) (fresh : UInt64) :
    Accounted [] ⟨new config fresh, []⟩ where
  records := .slnil
  created := rfl
  unread := fun _ _ => rfl
  served := by
    intro i c start hc
    cases hc

variable {events : List SpoolEvent} {e : SpoolEvent} {sp : BufferSpool}
  {cursors : List BufferReplayCursor} {st : BufferServing}

theorem Accounted.withSpool {sp' : BufferSpool}
    (h : Accounted events ⟨sp, cursors⟩) (hstarts : cursorStarts [e] = [])
    (hreturned : ∀ i, returnedTo i [e] = [])
    (hrecords : sp'.records.Sublist (sp.records ++ appendedBy [e])) (hserved : ∀ start returned c,
      Served (appendedBy events) sp.records start returned c →
        Served (appendedBy events ++ appendedBy [e]) sp'.records start returned c) :
    Accounted (events ++ [e]) ⟨sp', cursors⟩ where
  records := by
    rw [appendedBy_snoc]
    exact hrecords.trans (h.records.append (.refl _))
  created := by
    rw [cursorStarts_snoc, hstarts, append_nil]
    exact h.created
  unread := by
    intro i hi
    rw [returnedTo_snoc, hreturned, append_nil]
    exact h.unread i hi
  served := by
    intro i c start hc hstart
    rw [cursorStarts_snoc, hstarts, append_nil] at hstart
    rw [returnedTo_snoc, hreturned, append_nil, appendedBy_snoc]
    exact hserved start _ c (h.served i c start hc hstart)

theorem Accounted.newCursor (h : Accounted events ⟨sp, cursors⟩) (lastSeq : UInt64) :
    Accounted (events ++ [.newCursor lastSeq]) ⟨sp, cursors ++ [sp.replayCursorAfter lastSeq]⟩ := by
  have hquiet : ∀ i, returnedTo i (events ++ [.newCursor lastSeq])
      = returnedTo i events := fun i => by
    rw [returnedTo_snoc]
    exact append_nil _
  have happended : appendedBy (events ++ [.newCursor lastSeq]) = appendedBy events := by
    rw [appendedBy_snoc]
    exact append_nil _
  have hstarts : cursorStarts (events ++ [.newCursor lastSeq])
      = cursorStarts events ++ [lastSeq] := cursorStarts_snoc _ _
  refine ⟨happended ▸ h.records, ?_, ?_, ?_⟩
  · rw [hstarts, length_append, length_append, h.created]
    rfl
  · intro i hi
    rw [length_append, length_singleton] at hi
    rw [hquiet]
    exact h.unread i (Nat.le_of_succ_le hi)
  · intro i c start hc hstart
    rw [hquiet, happended]
    rw [hstarts, getElem?_append, h.created] at hstart
    rw [getElem?_append] at hc
    by_cases hi : i < cursors.length
    · rw [if_pos hi] at hc hstart
      exact h.served i c start hc hstart
    · rw [if_neg hi] at hc hstart
      cases mem_singleton.mp (mem_of_getElem? hc)
      cases mem_singleton.mp (mem_of_getElem? hstart)
      rw [h.unread i (Nat.not_lt.mp hi)]
      exact served_start _ _ rfl

theorem Accounted.next {events : List SpoolEvent} {sp : BufferSpool}
    {cursors : List BufferReplayCursor} {i : Nat} {c : BufferReplayCursor}
    (h : Accounted events ⟨sp, cursors⟩)
    (hseqs : (appendedBy events).Pairwise fun a b => a.seq < b.seq) (hc : cursors[i]? = some c) :
    Accounted (events ++ [.next i (sp.nextForCursor c).1])
      ⟨sp, cursors.set i (sp.nextForCursor c).2⟩ := by
  obtain ⟨hi, -⟩ := List.getElem?_eq_some_iff.mp hc
  have happended : appendedBy (events ++ [.next i (sp.nextForCursor c).1]) = appendedBy events := by
    rw [appendedBy_snoc]
    exact append_nil _
  have hstarts : cursorStarts (events ++ [.next i (sp.nextForCursor c).1])
      = cursorStarts events := by
    rw [cursorStarts_snoc]
    exact append_nil _
  have hother : ∀ j, j ≠ i → returnedTo j (events ++ [.next i (sp.nextForCursor c).1])
        = returnedTo j events := by
    intro j hj
    rw [returnedTo_snoc, returnedTo_next, if_neg (Ne.symm hj), append_nil]
  refine ⟨happended ▸ h.records, ?_, ?_, ?_⟩
  · rw [hstarts, length_set]
    exact h.created
  · intro j hj
    rw [length_set] at hj
    rw [hother j (by omega)]
    exact h.unread j hj
  · intro j c' start hc' hstart
    rw [hstarts] at hstart
    rw [happended]
    by_cases hj : j = i
    · subst hj
      rw [getElem?_set_self hi] at hc'
      cases hc'
      rw [returnedTo_snoc, returnedTo_next, if_pos rfl]
      exact (h.served j c start hc hstart).next (hseqs.sublist h.records)
        fun r hr => h.records.subset hr
    · rw [getElem?_set_ne (Ne.symm hj)] at hc'
      rw [hother j hj]
      exact h.served j c' start hc' hstart

theorem Accounted.step {st' : BufferServing} (h : Accounted events st) (hstep : BufferStep st e st')
    (hseqs : (appendedBy (events ++ [e])).Pairwise fun a b => a.seq < b.seq) :
    Accounted (events ++ [e]) st' := by
  rw [appendedBy_snoc] at hseqs
  obtain ⟨hold, -, hnew⟩ := pairwise_append.mp hseqs
  cases hstep with
  | append r =>
    refine h.withSpool rfl (fun _ => rfl) (append_sublist _ r) ?_
    intro start returned c hserved
    exact (hserved.append fun a ha => hnew a ha r mem_cons_self).shrink (append_sublist _ r)
  | @consumeThrough sp _ seq =>
    have hsub := consumeThrough_sublist sp seq
    refine h.withSpool rfl (fun _ => rfl) (hsub.trans (sublist_append_left _ _)) ?_
    intro start returned c hserved
    rw [show appendedBy [.consumeThrough seq] = [] from rfl, append_nil]
    exact hserved.shrink hsub
  | newCursor lastSeq => exact h.newCursor lastSeq
  | next hc => exact h.next hold hc

theorem accounted_of_run {config : BufferConfig} {fresh : UInt64}
    (hrun : Run BufferStep ⟨new config fresh, []⟩ events st)
    (hseqs : (appendedBy events).Pairwise fun a b => a.seq < b.seq) : Accounted events st := by
  induction hrun with
  | nil => exact accounted_new config fresh
  | snoc _ hstep ih =>
    have hbefore := appendedBy_snoc _ _ ▸ hseqs
    exact (ih (pairwise_append.mp hbefore).1).step hstep hseqs

/-- A cursor visits each retained record once, in order. -/
theorem cursors_exact (config : BufferConfig) (fresh : UInt64)
    {events : List SpoolEvent} {st : BufferServing}
    (hrun : Run BufferStep ⟨new config fresh, []⟩ events st)
    (hseqs : (appendedBy events).Pairwise fun a b => a.seq < b.seq)
    {i : Nat} {c : BufferReplayCursor} (hc : st.cursors[i]? = some c) : (st.spool.nextForCursor c).1
        = st.spool.records.find? (fun r => c.lastSeq < r.seq)
      ∧ ∃ start, (cursorStarts events)[i]? = some start
        ∧ ((returnedTo i events).Pairwise fun a b => a.seq < b.seq)
        ∧ (∀ r ∈ returnedTo i events, start < r.seq ∧ r.seq ≤ c.lastSeq)
        ∧ ∀ r ∈ st.spool.records, start < r.seq → r.seq ≤ c.lastSeq → r ∈ returnedTo i events := by
  have h := accounted_of_run hrun hseqs
  have hsorted := hseqs.sublist h.records
  refine ⟨nextForCursor_fst (behind_of_aligned hsorted), ?_⟩
  obtain ⟨hi, -⟩ := List.getElem?_eq_some_iff.mp hc
  have hi' : i < (cursorStarts events).length := h.created ▸ hi
  have hstart : (cursorStarts events)[i]? = some (cursorStarts events)[i] := getElem?_eq_getElem hi'
  have hserved := h.served i c _ hc hstart
  exact ⟨_, hstart, hserved.increasing, hserved.range, hserved.complete⟩

def evictingSpool : BufferSpool := new { limit := .messages 1, keepMessages := 1 } 7

theorem cursors_exact_evicted : ∃ events st c, Run BufferStep ⟨evictingSpool, []⟩ events st
      ∧ st.cursors[0]? = some c ∧ st.spool.records.map OwnedRecord.seq = [1, 3]
      ∧ (returnedTo 0 events).map OwnedRecord.seq = [1] ∧ (st.spool.nextForCursor c).1
        = st.spool.records.find? fun r => c.lastSeq < r.seq := by
  have r₁ : Run BufferStep ⟨evictingSpool, []⟩ _ _ := .snoc .nil (.append (smallRecord 1))
  have r₂ := r₁.snoc (.append (smallRecord 2))
  have r₃ := r₂.snoc (.newCursor 0)
  have r₄ := r₃.snoc (@BufferStep.next _ _ 0 _ rfl)
  have r₅ := r₄.snoc (.append (smallRecord 3))
  have hexact := @cursors_exact _ _ _ _ r₅ (by decide +kernel) 0 _ rfl
  exact ⟨_, _, _, r₅, rfl, by decide +kernel, by decide +kernel, hexact.1⟩

end BufferSpool

end Logjet
