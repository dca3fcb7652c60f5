/-
The merged view is a merge: it shows the matching records of each file in
their order, each once, and always the least of those that come next.
-/
import Logjet.Lib.QueueMerge
import Logjet.Ljx.Proofs.Discover
import Logjet.Ljx.View
import Logjet.Spool.Proofs.Refines

namespace Logjet.Ljx

open List QueueMerge Reference EStateM Except

theorem readExact_append {data bytes : Bytes} {pos n e : Nat}
    (h : readExact data pos n = .ok (bytes, e)) (more : Bytes) :
    readExact (data ++ more) pos n = .ok (bytes, e) := by
  unfold readExact at h ⊢
  by_cases hle : pos + n ≤ data.length
  · rw [if_pos hle] at h
    rw [if_pos (by rw [length_append]; omega), ← h, drop_append_of_le_length (by omega),
      take_append_of_le_length (by rw [length_drop]; omega)]
  · rw [if_neg hle] at h
    cases h

variable {spool : Bytes}

theorem readSpoolRecord_eq_ok_iff {payload : Bytes} {entry : EntryMeta} :
    readSpoolRecord spool entry = .ok ⟨entry, payload⟩
      ↔ ∃ e, readExact spool (entry.offset + 1 + 8 + 8 + 8)
          entry.payloadLen = .ok (payload, e) := by
  rw [readSpoolRecord]
  cases readExact spool (entry.offset + 1 + 8 + 8 + 8) entry.payloadLen with
  | error err => cases err <;> simp [lift]
  | ok read =>
    obtain ⟨bytes, e⟩ := read
    simp [lift, pure, Except.pure]

structure Shows (spool : Bytes) (paths : List Text) (entry : EntryMeta)
    (shown : Nat × OwnedRecord) : Prop where
  sourcePath : paths[shown.1]? = some entry.sourcePath
  recordType : entry.recordType = shown.2.recordType
  seq : entry.seq = shown.2.seq
  tsUnixNs : entry.tsUnixNs = shown.2.tsUnixNs
  detail : readSpoolRecord spool entry = .ok ⟨entry, shown.2.payload⟩

variable {paths : List Text}

theorem Shows.append {entry : EntryMeta}
    {shown : Nat × OwnedRecord} (h : Shows spool paths entry shown)
    (more : Bytes) : Shows (spool ++ more) paths entry shown := by
  obtain ⟨e, hread⟩ := readSpoolRecord_eq_ok_iff.mp h.detail
  exact { h with
    detail := readSpoolRecord_eq_ok_iff.mpr
      ⟨e, readExact_append hread more⟩ }

theorem shows_writeSpoolRecord
    {record : OwnedRecord} {i : Nat} {path : Text} (hpath : paths[i]? = some path) :
    Shows (writeSpoolRecord spool record path).2 paths
      (writeSpoolRecord spool record path).1 (i, record) := by
  refine ⟨hpath, rfl, rfl, rfl, readSpoolRecord_eq_ok_iff.mpr
    ⟨spool.length + 1 + 8 + 8 + 8 + record.payload.length, ?_⟩⟩
  have hlength : (spool ++ spoolHeader record).length = spool.length + 1 + 8 + 8 + 8 := by
    simp [spoolHeader]
  rw [readExact, writeSpoolRecord, ← hlength,
    if_pos (length_append.symm.le), drop_left, take_length]

theorem shows_push {entries : List EntryMeta} {shown : List (Nat × OwnedRecord)}
    (h : List.Forall₂ (Shows spool paths) entries shown)
    {i : Nat} {path : Text} (hpath : paths[i]? = some path) (record : OwnedRecord) :
    List.Forall₂ (Shows (writeSpoolRecord spool record path).2 paths)
      (entries ++ [(writeSpoolRecord spool record path).1]) (shown ++ [(i, record)]) := by
  refine rel_append (h.imp ?_) (.cons (shows_writeSpoolRecord hpath) .nil)
  intro entry shown hshows
  have hkept := hshows.append (spoolHeader record ++ record.payload)
  rw [← append_assoc] at hkept
  exact hkept

theorem heapPop_eq_none_iff {heap : List MergeItem} : heapPop heap = none ↔ heap = [] := by
  rw [heapPop, Option.map_eq_none_iff, argmin_eq_none]

theorem heapPop_least {heap rest : List MergeItem} {item : MergeItem}
    (h : heapPop heap = some (item, rest)) : heap.Perm (item :: rest)
      ∧ ∀ other ∈ heap, item.rank ≤ other.rank := by
  obtain ⟨least, hleast, heq⟩ := Option.map_eq_some_iff.mp h
  cases heq
  have hargmin := Option.mem_def.mpr hleast
  refine ⟨perm_cons_erase (argmin_mem hargmin), ?_⟩
  intro other hother
  exact le_of_mem_argmin hother hargmin

def recordKey (order : ViewOrder) (record : OwnedRecord) : ℕ ×ₗ ℕ :=
  match order with
  | .concat => toLex (0, 0)
  | .mergeSeq => toLex (record.seq.toNat, record.tsUnixNs.toNat)
  | .mergeTs => toLex (record.tsUnixNs.toNat, record.seq.toNat)

def Before (order : ViewOrder) (a b : Nat × OwnedRecord) : Prop :=
  recordKey order a.2 < recordKey order b.2 ∨ recordKey order a.2 = recordKey order b.2 ∧ a.1 ≤ b.1

theorem Before.trans {order : ViewOrder} {a b c : Nat × OwnedRecord}
    (hab : Before order a b) (hbc : Before order b c) : Before order a c := by
  rcases hab with hab | ⟨hab, hij⟩
  · rcases hbc with hbc | ⟨hbc, -⟩
    · exact Or.inl (hab.trans hbc)
    · exact Or.inl (hbc ▸ hab)
  · rcases hbc with hbc | ⟨hbc, hjk⟩
    · exact Or.inl (hab ▸ hbc)
    · exact Or.inr ⟨hab.trans hbc, hij.trans hjk⟩

theorem before_of_rank_le {order : ViewOrder} (horder : order ≠ .concat)
    {record record' : OwnedRecord} {i j : Nat} {serial serial' : UInt64}
    (h : MergeItem.rank ⟨mergeKey order record i serial, i⟩
      ≤ MergeItem.rank ⟨mergeKey order record' j serial', j⟩) :
    Before order (i, record) (j, record') := by
  cases order with
  | concat => exact absurd rfl horder
  | mergeSeq =>
    simp only [MergeItem.rank, mergeKey, Prod.Lex.toLex_le_toLex] at h
    simp only [Before, recordKey, Prod.Lex.toLex_lt_toLex, toLex_inj, Prod.mk.injEq]
    omega
  | mergeTs =>
    simp only [MergeItem.rank, mergeKey, Prod.Lex.toLex_le_toLex] at h
    simp only [Before, recordKey, Prod.Lex.toLex_lt_toLex, toLex_inj, Prod.mk.injEq]
    omega

structure Lane where
  stream : StreamState
  item : Option MergeItem
  rest : List OwnedRecord

section

variable (x : External) (decode : DecodeLogs) (predicate : RecordPredicate) (order : ViewOrder)

def Lane.queue (lane : Lane) : List OwnedRecord :=
  lane.stream.pending.toList
    ++ lane.rest.filter (predicate.matches decode)

inductive Lane.Holds : Lane → Prop
  | record {s : StreamState} {record : OwnedRecord} {serial : UInt64}
      {rest : List OwnedRecord} {r' : LogjetReader} (hpending : s.pending = some record)
      (hread : Yields x s.reader rest r') :
      Lane.Holds ⟨s, some ⟨mergeKey order record s.idx serial, s.idx⟩, rest⟩
  | ended {s : StreamState} (hpending : s.pending = none) : Lane.Holds ⟨s, none, []⟩

structure Lane.Open (lane : Lane) : Prop where
  pending : lane.stream.pending = none
  item : lane.item = none
  read : ∃ r', Yields x lane.stream.reader lane.rest r'

structure Lane.Advances (lane : Lane) (scanned serial : UInt64)
    (next : Advanced) (rest : List OwnedRecord) : Prop where
  holds : Lane.Holds x order ⟨next.stream, next.item, rest⟩
  idx : next.stream.idx = lane.stream.idx
  path : next.stream.path = lane.stream.path
  queue : Lane.queue decode predicate ⟨next.stream, next.item, rest⟩ = lane.queue decode predicate
  scanned : next.scanned.toNat + rest.length = scanned.toNat + lane.rest.length
  serial : next.serial.toNat = serial.toNat + next.item.toList.length
  le : next.serial.toNat ≤ next.scanned.toNat

end

section

variable {x : External} {decode : DecodeLogs} {predicate : RecordPredicate} {order : ViewOrder}

theorem lift_checkedAdd_cases (field : String) (n : UInt64) :
    (∃ next, lift (checkedAdd field n 1) = .ok next ∧ next.toNat = n.toNat + 1)
    ∨ (∃ err, lift (checkedAdd field n 1) = .error err) ∧ 2 ^ 64 ≤ n.toNat + 1 := by
  by_cases hroom : n.toNat + 1 < 2 ^ 64
  · obtain ⟨next, hadd, hnext⟩ := @checkedAdd_ok field n 1 hroom
    exact Or.inl ⟨next, by rw [hadd]; rfl, hnext⟩
  · refine Or.inr ⟨⟨.logjet (.numericOverflow field), ?_⟩, Nat.not_lt.mp hroom⟩
    rw [checkedAdd, if_neg hroom]
    rfl

section

variable {s : StreamState} {reader : LogjetReader} {scanned serial : UInt64}

theorem StreamState.advance_none (hnext : nextRecord x s.reader = .ok none reader) :
    s.advance x decode predicate order scanned serial
      = .ok ⟨none, { s with reader, pending := none }, scanned, serial⟩ := by
  rw [StreamState.advance]
  split
  next hnext' => rw [hnext] at hnext'; cases hnext'
  next hnext' => rw [hnext] at hnext'; cases hnext'; rfl
  next hnext' => rw [hnext] at hnext'; cases hnext'

theorem StreamState.advance_some {record : OwnedRecord}
    (hnext : nextRecord x s.reader = .ok (some record) reader) :
    s.advance x decode predicate order scanned serial
      = lift (checkedAdd "view scanned" scanned 1) >>= fun scanned =>
        if predicate.matches decode record = true then
          lift (checkedAdd "view merge serial" serial 1) >>= fun serial' =>
            .ok ⟨some ⟨mergeKey order record s.idx serial, s.idx⟩,
              { s with reader, pending := some record }, scanned, serial'⟩
        else StreamState.advance x decode predicate order { s with reader } scanned serial := by
  rw [StreamState.advance]
  split
  next hnext' => rw [hnext] at hnext'; cases hnext'
  next hnext' => rw [hnext] at hnext'; cases hnext'
  next hnext' =>
    rw [hnext] at hnext'
    cases hnext'
    cases lift (checkedAdd "view scanned" scanned 1) with
    | error err => rw [error_bind]
    | ok scanned' =>
      rw [ok_bind]
      dsimp only
      cases predicate.matches decode record with
      | false => rw [if_pos Bool.not_false, if_neg Bool.false_ne_true]
      | true =>
        rw [if_neg (by decide), if_pos rfl]
        cases lift (checkedAdd "view merge serial" serial 1) with
        | error err => rw [error_bind]
        | ok serial' => rw [ok_bind]

end

theorem Lane.advance {s : StreamState} {rest : List OwnedRecord}
    {r' : LogjetReader} (hread : Yields x s.reader rest r')
    (hpending : s.pending = none) {scanned serial : UInt64} (hle : serial.toNat ≤ scanned.toNat) :
    (∃ next rest', s.advance x decode predicate order scanned serial = .ok next
      ∧ Lane.Advances x decode predicate order ⟨s, none, rest⟩ scanned serial next rest')
    ∨ (∃ err, s.advance x decode predicate order scanned serial = .error err)
      ∧ 2 ^ 64 ≤ scanned.toNat + rest.length := by
  generalize hr : s.reader = r at hread
  induction hread generalizing s scanned with
  | @done r r' hnext =>
    subst hr
    refine Or.inl ⟨_, [], StreamState.advance_none hnext, ?_⟩
    exact ⟨.ended rfl, rfl, rfl, by simp [Lane.queue, hpending], rfl, rfl, hle⟩
  | @more r r₁ r' record rest hnext tail ih =>
    subst hr
    rw [StreamState.advance_some hnext, length_cons]
    rcases lift_checkedAdd_cases "view scanned" scanned with
      ⟨scanned', hadd, hscanned⟩ | ⟨⟨err, hadd⟩, hfull⟩
    · rw [hadd, ok_bind]
      by_cases hmatch : predicate.matches decode record = true
      · rw [if_pos hmatch]
        obtain ⟨serial', hserial, hnumber⟩ := @checkedAdd_ok
          "view merge serial" serial 1 (by have := scanned'.toNat_lt; omega)
        rw [hserial, lift, ok_bind]
        refine Or.inl ⟨_, rest, rfl, ⟨.record rfl tail, rfl, rfl, ?_, ?_, hnumber, ?_⟩⟩
        · simp [Lane.queue, hpending, hmatch]
        · simp only [length_cons]
          omega
        · simp only
          omega
      · rw [if_neg hmatch]
        rcases @ih { s with reader := r₁ } hpending scanned' (by omega) rfl
          with ⟨next, rest', hok, hnext'⟩ | ⟨herr, hfull⟩
        · refine Or.inl ⟨next, rest', hok, ?_⟩
          obtain ⟨holds, hidx, hpath, hqueue, hcount, hnumber, hle'⟩ := hnext'
          refine ⟨holds, hidx, hpath, hqueue.trans ?_, ?_, hnumber, hle'⟩
          · simp [Lane.queue, hmatch]
          · simp only [length_cons] at hcount ⊢
            omega
        · exact Or.inr ⟨herr, by omega⟩
    · rw [hadd, error_bind]
      exact Or.inr ⟨⟨err, rfl⟩, by omega⟩

section

variable (x) (order)

structure Merging (paths : List Text) (total : Nat) (lanes : List Lane)
    (out : List (Nat × OwnedRecord)) (m : MergeState) : Prop where
  streams : m.streams = lanes.map Lane.stream
  idx : ∀ (i : Nat) (lane : Lane), lanes[i]? = some lane → lane.stream.idx = i
  path : lanes.map (fun lane => lane.stream.path) = paths
  lane : ∀ lane ∈ lanes, lane.Holds x order ∨ lane.Open x
  heap : m.heap.Perm (lanes.filterMap Lane.item)
  shown : List.Forall₂ (Shows m.spool paths) (m.sent.flatten ++ m.txBatch) out
  scanned : m.scanned.toNat + (lanes.map fun lane => lane.rest.length).sum = total
  serial : m.serial.toNat = m.matched.toNat + m.heap.length
  matched : m.matched.toNat = out.length
  le : m.serial.toNat ≤ m.scanned.toNat

end

section

variable {paths : List Text} {total : Nat} {lanes : List Lane}
  {out : List (Nat × OwnedRecord)} {m : MergeState} {i : Nat}

theorem Merging.stream (h : Merging x order paths total lanes out m)
    {lane : Lane} (hi : lanes[i]? = some lane) : m.stream i = .ok lane.stream := by
  rw [MergeState.stream_eq_ok_iff, h.streams, getElem?_map, hi]
  rfl

theorem idx_set {lane lane' : Lane} (hi : lanes[i]? = some lane)
    (hidx : lane'.stream.idx = lane.stream.idx)
    (h : ∀ (i : Nat) (lane : Lane), lanes[i]? = some lane → lane.stream.idx = i) :
    ∀ (j : Nat) (found : Lane), (lanes.set i lane')[j]? = some found → found.stream.idx = j := by
  intro j found hfound
  obtain ⟨hlt, -⟩ := List.getElem?_eq_some_iff.mp hi
  by_cases hij : i = j
  · subst hij
    rw [getElem?_set_self hlt] at hfound
    cases hfound
    exact hidx.trans (h i lane hi)
  · rw [getElem?_set_ne hij] at hfound
    exact h j found hfound

theorem map_set_of_eq {β : Type} (f : Lane → β) {lane : Lane} (lane' : Lane)
    (hi : lanes[i]? = some lane) (hf : f lane' = f lane) :
    (lanes.set i lane').map f = lanes.map f := by
  obtain ⟨hlt, rfl⟩ := List.getElem?_eq_some_iff.mp hi
  rw [List.map_set, hf, ← List.map_set, List.set_getElem_self]

theorem advanceStream_spec (h : Merging x order paths total lanes out m)
    {lane : Lane} (hi : lanes[i]? = some lane) (hopen : lane.Open x) :
    (∃ m' lane', advanceStream x decode predicate order i m = .ok () m'
      ∧ Merging x order paths total (lanes.set i lane') out m' ∧ lane'.Holds x order
      ∧ lane'.queue decode predicate = lane.queue decode predicate)
    ∨ (∃ err m', advanceStream x decode predicate order i m = .error err m') ∧ 2 ^ 64 ≤ total := by
  obtain ⟨s, item, rest⟩ := lane
  obtain ⟨hpending, hitem, r', hread⟩ := hopen
  subst hitem
  have hstream := h.stream hi
  rw [advanceStream, get_bind, hstream, ofExcept_ok_bind]
  rcases @Lane.advance x decode predicate order s rest r' hread hpending
    m.scanned m.serial h.le with
    ⟨next, rest', hok, hnext⟩ | ⟨⟨err, herr⟩, hfull⟩
  · rw [hok, ofExcept_ok_bind]
    have hperm := filterMap_set_perm Lane.item ⟨next.stream, next.item, rest'⟩ hi
    have hsum := @WorkPool.sum_map_set _ (fun lane => lane.rest.length) _ _ _
      (⟨next.stream, next.item, rest'⟩ : Lane) hi
    have hcount := hnext.scanned
    have hserial := hnext.serial
    refine Or.inl ⟨_, ⟨next.stream, next.item, rest'⟩, rfl, ?_, hnext.holds, hnext.queue⟩
    refine ⟨?_, idx_set hi hnext.idx h.idx, ?_, ?_, ?_, h.shown, ?_, ?_, h.matched, hnext.le⟩
    · simp only [h.streams, map_set]
    · rw [map_set_of_eq (fun lane => lane.stream.path) _ hi hnext.path, h.path]
    · intro found hfound
      rcases mem_or_eq_of_mem_set hfound with hold | rfl
      · exact h.lane found hold
      · exact Or.inl hnext.holds
    · exact (h.heap.append_left _).trans hperm.symm
    · have htotal := h.scanned
      simp only at hsum hcount ⊢
      omega
    · have hnumber := h.serial
      simp only [length_append]
      omega
  · rw [herr, ofExcept_error_bind]
    refine Or.inr ⟨⟨err, m, rfl⟩, ?_⟩
    have hsum := @WorkPool.sum_map_set _ (fun lane => lane.rest.length) _ _ _
      (⟨s, none, []⟩ : Lane) hi
    have htotal := h.scanned
    simp only [length_nil] at hsum
    omega

theorem emitRecord_ok {record : OwnedRecord} {path : Text} (hroom : m.matched.toNat + 1 < 2 ^ 64) :
    ∃ m', emitRecord record path m = .ok () m' ∧ m'.streams = m.streams ∧ m'.heap = m.heap
      ∧ m'.scanned = m.scanned ∧ m'.serial = m.serial ∧ m'.matched.toNat = m.matched.toNat + 1
      ∧ m'.spool = (writeSpoolRecord m.spool record path).2
      ∧ m'.sent.flatten ++ m'.txBatch = m.sent.flatten ++ m.txBatch
        ++ [(writeSpoolRecord m.spool record path).1] := by
  obtain ⟨matched, hadd, hmatched⟩ := @checkedAdd_ok "view matched" m.matched 1 hroom
  obtain ⟨m₁, hm₁⟩ : ∃ m₁ : MergeState, m₁ = { m with
      spool := (writeSpoolRecord m.spool record path).2
      txBatch := m.txBatch ++ [(writeSpoolRecord m.spool record path).1]
      matched } := ⟨_, rfl⟩
  have hrun : emitRecord record path m = .ok ()
      (if scanBatchSize ≤ m₁.txBatch.length then m₁.send else m₁) := by
    rw [emitRecord, modify_bind, get_bind, hadd, lift, ofExcept_ok_bind, set_bind, hm₁]
    rfl
  refine ⟨_, hrun, ?_⟩
  have hm₁' : m₁.sent.flatten ++ m₁.txBatch = m.sent.flatten ++ m.txBatch
      ++ [(writeSpoolRecord m.spool record path).1] := by
    rw [hm₁]
    exact (append_assoc _ _ _).symm
  split
  · refine ⟨hm₁ ▸ rfl, hm₁ ▸ rfl, hm₁ ▸ rfl, hm₁ ▸ rfl, hm₁ ▸ hmatched, hm₁ ▸ rfl, ?_⟩
    simpa [MergeState.send] using hm₁'
  · exact ⟨hm₁ ▸ rfl, hm₁ ▸ rfl, hm₁ ▸ rfl, hm₁ ▸ rfl, hm₁ ▸ hmatched, hm₁ ▸ rfl, hm₁'⟩

theorem Merging.take (h : Merging x order paths total lanes out m)
    {s : StreamState} {item : MergeItem} {record : OwnedRecord}
    {rest : List OwnedRecord} {r' : LogjetReader} {heap : List MergeItem}
    (hi : lanes[i]? = some ⟨s, some item, rest⟩) (hread : Yields x s.reader rest r')
    (hheap : m.heap.Perm (item :: heap)) :
    ∃ m', emitRecord record s.path { m with
        heap
        streams := m.streams.set i { s with pending := none } } = .ok () m'
      ∧ Merging x order paths total (lanes.set i ⟨{ s with pending := none }, none, rest⟩)
          (out ++ [(i, record)]) m' := by
  have hpop := hheap.length_eq
  rw [length_cons] at hpop
  have hserial := h.serial
  have hmatched := h.matched
  have hle := h.le
  have hlt := m.scanned.toNat_lt
  obtain ⟨m', hrun, hstreams', hheap', hscanned', hserial', hmatched', hspool',
    hsent'⟩ := @emitRecord_ok { m with
      heap
      streams := m.streams.set i { s with pending := none } } record s.path
    (by simp only; omega)
  have hperm := filterMap_set_perm Lane.item ⟨{ s with pending := none }, none, rest⟩ hi
  have hsum := @WorkPool.sum_map_set _ (fun lane => lane.rest.length) _ _ _
    (⟨{ s with pending := none }, none, rest⟩ : Lane) hi
  have hpath : paths[i]? = some s.path := by
    rw [← h.path, getElem?_map, hi]
    rfl
  refine ⟨m', hrun, ⟨?_, idx_set hi rfl h.idx, ?_, ?_, ?_, ?_, ?_, ?_, ?_, ?_⟩⟩
  · rw [hstreams', h.streams, map_set]
  · have hsame := map_set_of_eq (fun lane => lane.stream.path)
      ⟨{ s with pending := none }, none, rest⟩ hi rfl
    exact hsame.trans h.path
  · intro found hfound
    rcases mem_or_eq_of_mem_set hfound with hold | rfl
    · exact h.lane found hold
    · exact Or.inr ⟨rfl, rfl, r', hread⟩
  · rw [hheap']
    exact List.Perm.cons_inv (hheap.symm.trans (h.heap.trans hperm.symm))
  · rw [hsent', hspool']
    exact shows_push h.shown hpath record
  · have htotal := h.scanned
    rw [hscanned']
    simp only at hsum ⊢
    omega
  · rw [hserial', hheap', hmatched']
    simp only
    omega
  · rw [hmatched', length_append, length_singleton, ← hmatched]
  · rw [hserial', hscanned']
    exact hle

theorem Merging.ended (h : Merging x order paths total lanes out m)
    (hholds : ∀ lane ∈ lanes, lane.Holds x order) (hempty : m.heap = []) :
    ∀ lane ∈ lanes, lane.rest = [] ∧ lane.queue decode predicate = [] := by
  intro lane hlane
  have hitems := h.heap
  rw [hempty] at hitems
  cases hholds lane hlane with
  | @record s record serial rest r' hpending hread =>
    have hin : ⟨mergeKey order record s.idx serial, s.idx⟩ ∈ lanes.filterMap Lane.item :=
      mem_filterMap.mpr ⟨_, hlane, rfl⟩
    rw [← hitems.mem_iff] at hin
    cases hin
  | ended hpending =>
    refine ⟨rfl, ?_⟩
    rw [Lane.queue, hpending]
    rfl

theorem Merging.head (h : Merging x order paths total lanes out m)
    (hholds : ∀ lane ∈ lanes, lane.Holds x order) {record : OwnedRecord} {tail : List OwnedRecord}
    (hi : (lanes.map (Lane.queue decode predicate))[i]? = some (record :: tail)) :
    ∃ serial, ⟨mergeKey order record i serial, i⟩ ∈ m.heap := by
  rw [getElem?_map] at hi
  obtain ⟨lane, hlane, hqueue⟩ := Option.map_eq_some_iff.mp hi
  have hmem := mem_of_getElem? hlane
  have hidx := h.idx i lane hlane
  cases hholds lane hmem with
  | @record s held serial rest r' hpending hread =>
    rw [Lane.queue, hpending] at hqueue
    cases hqueue
    subst hidx
    exact ⟨serial, h.heap.mem_iff.mpr (mem_filterMap.mpr ⟨_, hmem, rfl⟩)⟩
  | ended hpending =>
    rw [Lane.queue, hpending] at hqueue
    cases hqueue

theorem mergeStep_spec (horder : order ≠ .concat) (h : Merging x order paths total lanes out m)
    (hholds : ∀ lane ∈ lanes, lane.Holds x order) :
    mergeStep x decode predicate order m = .ok false m ∧ m.heap = [] ∨ (∃ i record tail lanes' m',
        mergeStep x decode predicate order m = .ok true m'
        ∧ Merging x order paths total lanes' (out ++ [(i, record)]) m'
        ∧ (∀ lane ∈ lanes', lane.Holds x order) ∧ (lanes.map (Lane.queue decode predicate))[i]?
          = some (record :: tail) ∧ lanes'.map (Lane.queue decode predicate)
          = (lanes.map (Lane.queue decode predicate)).set i tail ∧ ∀ j other tail',
            (lanes.map (Lane.queue decode predicate))[j]? = some (other :: tail') →
            Before order (i, record) (j, other))
    ∨ (∃ err m', mergeStep x decode predicate order m = .error err m') ∧ 2 ^ 64 ≤ total := by
  rw [mergeStep, get_bind]
  cases hpop : heapPop m.heap with
  | none => exact Or.inl ⟨rfl, heapPop_eq_none_iff.mp hpop⟩
  | some popped =>
    obtain ⟨item, heap⟩ := popped
    obtain ⟨hheap, hleast⟩ := heapPop_least hpop
    have hitem : item ∈ lanes.filterMap Lane.item :=
      (hheap.symm.trans h.heap).subset (mem_cons_self ..)
    obtain ⟨lane, hlane, hitem⟩ := mem_filterMap.mp hitem
    obtain ⟨i, hi⟩ := List.mem_iff_getElem?.mp hlane
    obtain ⟨hlt, -⟩ := List.getElem?_eq_some_iff.mp hi
    cases hholds lane hlane with
    | ended hpending => cases hitem
    | @record s record serial rest r' hpending hread =>
      cases hitem
      have hidx : s.idx = i := h.idx i _ hi
      subst hidx
      obtain ⟨m₁, hemit, h₁⟩ := @Merging.take x order paths total lanes
        out m s.idx h s _ record rest r' heap hi hread hheap
      have htake : takeItem x decode predicate order
            ⟨mergeKey order record s.idx serial, s.idx⟩ { m with heap }
          = advanceStream x decode predicate order s.idx m₁ := by
        have hstream : MergeState.stream { m with heap } s.idx = .ok s := h.stream hi
        rw [takeItem, get_bind, hstream, ofExcept_ok_bind]
        simp only [hpending]
        rw [set_bind, bind_of_ok hemit]
      have hi₁ := @getElem?_set_self Lane lanes s.idx ⟨{ s with pending := none }, none, rest⟩ hlt
      simp only [set_bind]
      rcases @advanceStream_spec x decode predicate order paths total _ _
        m₁ s.idx h₁ _ hi₁ ⟨rfl, rfl, r', hread⟩ with
        ⟨m', lane', hrun, h', hholds', hqueue'⟩ | ⟨⟨err, m', hrun⟩, hfull⟩
      · right
        left
        rw [set_set] at h'
        refine ⟨s.idx, record, rest.filter (predicate.matches decode),
          _, m', ?_, h', ?_, ?_, ?_, ?_⟩
        · rw [bind_of_ok (htake.trans hrun)]
          rfl
        · intro found hfound
          rcases mem_or_eq_of_mem_set hfound with hold | rfl
          · exact hholds found hold
          · exact hholds'
        · rw [getElem?_map, hi, Option.map_some, Lane.queue, hpending]
          rfl
        · rw [map_set, hqueue']
          rfl
        · intro j other tail' hj
          obtain ⟨serial', hother⟩ := h.head hholds hj
          exact before_of_rank_le horder (hleast _ hother)
      · right
        right
        exact ⟨⟨err, m', bind_of_error (htake.trans hrun)⟩, hfull⟩

theorem mergeLoop_eq : mergeLoop x decode predicate order m
      = match mergeStep x decode predicate order m with
        | .error err m' => .error err m'
        | .ok false m' => .ok () m'
        | .ok true m' => mergeLoop x decode predicate order m' := by
  rw [mergeLoop]
  split
  next hstep => rw [hstep]
  next hstep => rw [hstep]
  next hstep => rw [hstep]

theorem mergeLoop_spec (horder : order ≠ .concat) (h : Merging x order paths total lanes out m)
    (hholds : ∀ lane ∈ lanes, lane.Holds x order) :
    (∃ later lanes' m', mergeLoop x decode predicate order m = .ok () m'
      ∧ Merging x order paths total lanes' (out ++ later) m' ∧ (∀ lane ∈ lanes', lane.rest = [])
      ∧ Merges (Before order) (lanes.map (Lane.queue decode predicate)) later)
    ∨ (∃ err m', mergeLoop x decode predicate order m = .error err m') ∧ 2 ^ 64 ≤ total := by
  induction hn : m.remaining using Nat.strong_induction_on generalizing m lanes out with
  | _ n ih =>
    rcases @mergeStep_spec x decode predicate order paths total lanes out m horder h hholds with
      ⟨hstep, hempty⟩
      | ⟨i, record, tail, lanes', m', hstep, h', hholds', hi, hset, hleast⟩
      | ⟨⟨err, m', hstep⟩, hfull⟩
    · have hended := @Merging.ended x decode predicate order paths total lanes out m h hholds hempty
      rw [mergeLoop_eq, hstep]
      refine Or.inl ⟨[], lanes, m, rfl, ?_, ?_, .done ?_⟩
      · rw [append_nil]
        exact h
      · intro lane hlane
        exact (hended lane hlane).1
      · intro q hq
        obtain ⟨lane, hlane, rfl⟩ := mem_map.mp hq
        exact (hended lane hlane).2
    · have hless := mergeStep_uses x decode predicate order hstep
      rw [mergeLoop_eq, hstep]
      rcases ih m'.remaining (hn ▸ hless) h' hholds' rfl with
        ⟨later, lanes₂, m₂, hrun, h₂, hrest, hmerges⟩ | hfull
      · refine Or.inl ⟨(i, record) :: later, lanes₂, m₂, hrun, ?_, hrest, .take hi hleast ?_⟩
        · rw [append_cons]
          exact h₂
        · rw [← hset]
          exact hmerges
      · exact Or.inr hfull
    · rw [mergeLoop_eq, hstep]
      exact Or.inr ⟨⟨err, m', rfl⟩, hfull⟩

theorem advanceAll_spec {indices : List Nat} (hnodup : indices.Nodup)
    (h : Merging x order paths total lanes out m)
    (hopen : ∀ i ∈ indices, ∃ lane, lanes[i]? = some lane ∧ lane.Open x)
    (hholds : ∀ i ∉ indices, ∀ lane, lanes[i]? = some lane → lane.Holds x order) :
    (∃ lanes' m', indices.forM (advanceStream x decode predicate order) m = .ok () m'
      ∧ Merging x order paths total lanes' out m' ∧ (∀ lane ∈ lanes', lane.Holds x order)
      ∧ lanes'.map (Lane.queue decode predicate) = lanes.map (Lane.queue decode predicate))
    ∨ (∃ err m', indices.forM (advanceStream x decode predicate order) m = .error err m')
      ∧ 2 ^ 64 ≤ total := by
  induction indices generalizing lanes m with
  | nil =>
    refine Or.inl ⟨lanes, m, rfl, h, ?_, rfl⟩
    intro lane hlane
    obtain ⟨i, hi⟩ := mem_iff_getElem?.mp hlane
    exact hholds i not_mem_nil lane hi
  | cons i indices ih =>
    obtain ⟨hnot, hnodup⟩ := nodup_cons.mp hnodup
    obtain ⟨lane, hi, hlane⟩ := hopen i (List.mem_cons_self ..)
    obtain ⟨hlt, -⟩ := List.getElem?_eq_some_iff.mp hi
    have hcons : (i :: indices).forM (advanceStream x decode predicate order)
        = advanceStream x decode predicate order i >>= fun _ =>
          indices.forM (advanceStream x decode predicate order) := rfl
    rw [hcons]
    rcases @advanceStream_spec x decode predicate order paths total lanes
      out m i h lane hi hlane with
      ⟨m', lane', hrun, h', hholds', hqueue'⟩ | ⟨⟨err, m', hrun⟩, hfull⟩
    · rw [bind_of_ok hrun]
      have hsame := map_set_of_eq (Lane.queue decode predicate) lane' hi hqueue'
      rw [← hsame]
      apply ih hnodup h'
      · intro j hj
        have hij : i ≠ j := by
          rintro rfl
          exact hnot hj
        rw [getElem?_set_ne hij]
        exact hopen j (mem_cons_of_mem _ hj)
      · intro j hj found hfound
        by_cases hij : i = j
        · subst hij
          rw [getElem?_set_self hlt] at hfound
          cases hfound
          exact hholds'
        · rw [getElem?_set_ne hij] at hfound
          refine hholds j ?_ found hfound
          intro hin
          rcases mem_cons.mp hin with heq | hin
          · exact hij heq.symm
          · exact hj hin
    · rw [bind_of_error hrun]
      exact Or.inr ⟨⟨err, m', rfl⟩, hfull⟩

end

variable (x) in

def ReadsAs (files : Directory) (entry : DatasetEntry) (records : List OwnedRecord) : Prop :=
  entry.index = none ∧ entry.path ≠ "-".toList ∧ ∃ data r', files.get? entry.path = some data
      ∧ Yields x (LogjetReader.withConfig data .default) records r'

section

variable {sys : Surroundings} {files : Directory}
  {entries : List DatasetEntry} {lists : List (List OwnedRecord)}

theorem open_spec (h : List.Forall₂ (ReadsAs x files) entries lists) (k : Nat) :
    ∃ lanes : List Lane, (entries.zipIdx k).mapM (fun p => StreamState.open sys files p.2
        p.1.path) = .ok (lanes.map Lane.stream) ∧ lanes.map Lane.rest = lists
      ∧ lanes.map (fun lane => lane.stream.path) = entries.map DatasetEntry.path
      ∧ (∀ (i : Nat) (lane : Lane), lanes[i]? = some lane → lane.stream.idx = k + i)
      ∧ ∀ lane ∈ lanes, lane.Open x := by
  induction h generalizing k with
  | nil =>
    refine ⟨[], rfl, rfl, rfl, ?_, ?_⟩
    · intro i lane hi
      cases hi
    · intro lane hlane
      cases hlane
  | @cons entry records entries lists hentry _ ih =>
    obtain ⟨-, hpath, data, r', hfile, hread⟩ := hentry
    obtain ⟨lanes, hopen, hrest, hpaths, hidx, hlanes⟩ := ih (k + 1)
    have hfirst : StreamState.open sys files k entry.path = .ok
        { idx := k, path := entry.path
          reader := LogjetReader.withConfig data .default
          pending := none } := by
      rw [StreamState.open, readInput_file hpath hfile]
      rfl
    refine ⟨⟨{ idx := k, path := entry.path
               reader := LogjetReader.withConfig data .default
               pending := none }, none, records⟩ :: lanes, ?_, ?_, ?_, ?_, ?_⟩
    · rw [zipIdx_cons, mapM_cons, hfirst, ok_bind, hopen, ok_bind]
      rfl
    · rw [map_cons, hrest]
    · rw [map_cons, hpaths]
      rfl
    · intro i lane hi
      cases i with
      | zero =>
        cases hi
        rfl
      | succ i =>
        rw [hidx i lane hi]
        omega
    · intro lane hlane
      rcases mem_cons.mp hlane with rfl | hlane
      · exact ⟨rfl, rfl, r', hread⟩
      · exact hlanes lane hlane

theorem openStreams_spec (h : List.Forall₂ (ReadsAs x files) entries lists) :
    openStreams predicate sys files entries
      = (entries.zipIdx 0).mapM fun p => StreamState.open sys files p.2 p.1.path := by
  have hall : (entries.filter fun entry => entry.index.all fun index =>
      index.summary.mayMatch predicate) = entries := by
    rw [filter_eq_self]
    intro entry hentry
    obtain ⟨i, hi⟩ := List.mem_iff_getElem?.mp hentry
    obtain ⟨hlt, rfl⟩ := List.getElem?_eq_some_iff.mp hi
    have hnone := (h.get hlt (h.length_eq ▸ hlt)).1
    rw [get_eq_getElem] at hnone
    rw [hnone]
    rfl
  rw [openStreams, hall]

variable (decode) (predicate) (order) in

structure ShowsMerge (paths : List Text) (lists : List (List OwnedRecord))
    (scanned matched : UInt64) (m : MergeState) (out : List (Nat × OwnedRecord)) : Prop where
  shown : List.Forall₂ (Shows m.spool paths) m.sent.flatten out
  scanned : scanned.toNat = (lists.map List.length).sum
  matched : matched.toNat = out.length
  interleaves : ∀ i : Nat, (out.filter fun e => e.1 = i).map Prod.snd
    = (lists[i]?.getD []).filter (predicate.matches decode)
  sorted : (∀ records ∈ lists, (records.filter (predicate.matches decode)).Pairwise
        fun a b => recordKey order a ≤ recordKey order b) → out.Pairwise (Before order)

theorem sorted_of_merges {out : List (Nat × OwnedRecord)} (h : Merges (Before order)
      (lists.map (List.filter (predicate.matches decode))) out) (hsorted : ∀ records ∈ lists,
      (records.filter (predicate.matches decode)).Pairwise
        fun a b => recordKey order a ≤ recordKey order b) : out.Pairwise (Before order) := by
  refine h.sorted (fun _ _ _ => Before.trans) ?_
  intro i q hq
  rw [getElem?_map] at hq
  obtain ⟨records, hrecords, rfl⟩ := Option.map_eq_some_iff.mp hq
  rw [pairwise_map]
  refine (hsorted records (mem_of_getElem? hrecords)).imp ?_
  intro a b hab
  rcases lt_or_eq_of_le hab with hlt | heq
  · exact Or.inl hlt
  · exact Or.inr ⟨heq, Nat.le_refl i⟩

theorem flatten_sent (m : MergeState) : (if m.txBatch.isEmpty then m else m.send).sent.flatten
      = m.sent.flatten ++ m.txBatch := by
  cases hbatch : m.txBatch with
  | nil => simp
  | cons entry batch => simp [MergeState.send, hbatch]

theorem sent_keeps (m : MergeState) : (if m.txBatch.isEmpty then m else m.send).spool = m.spool
      ∧ (if m.txBatch.isEmpty then m else m.send).scanned = m.scanned
      ∧ (if m.txBatch.isEmpty then m else m.send).matched = m.matched := by
  split
  · exact ⟨rfl, rfl, rfl⟩
  · exact ⟨rfl, rfl, rfl⟩

theorem scanMatchesMerged_spec (horder : order ≠ .concat)
    (h : List.Forall₂ (ReadsAs x files) entries lists) (spool : Bytes) : (∃ scanned matched m out,
      scanMatchesMerged x decode predicate order sys files entries
          (.start spool) = .ok (scanned, matched) m
      ∧ ShowsMerge decode predicate order (entries.map DatasetEntry.path)
          lists scanned matched m out)
    ∨ (∃ err m, scanMatchesMerged x decode predicate order sys files entries
        (.start spool) = .error err m) ∧ 2 ^ 64 ≤ (lists.map List.length).sum := by
  obtain ⟨lanes, hopen, hrest, hpaths, hidx, hlanes⟩ := @open_spec x sys files entries lists h 0
  simp only [Nat.zero_add] at hidx
  have hqueues : lanes.map (Lane.queue decode predicate)
      = lists.map (List.filter (predicate.matches decode)) := by
    rw [← hrest, map_map]
    refine map_congr_left ?_
    intro lane hlane
    rw [Lane.queue, (hlanes lane hlane).pending]
    rfl
  have hstart : Merging x order (entries.map DatasetEntry.path) (lists.map List.length).sum lanes []
      { MergeState.start spool with streams := lanes.map Lane.stream } := by
    refine ⟨rfl, hidx, hpaths, fun lane hlane => Or.inr (hlanes lane hlane),
      ?_, .nil, ?_, rfl, rfl, Nat.le_refl _⟩
    · have hnone : lanes.filterMap Lane.item = [] := by
        rw [filterMap_eq_nil_iff]
        intro lane hlane
        exact (hlanes lane hlane).item
      rw [hnone]
      exact .refl _
    · rw [← hrest, map_map]
      exact Nat.zero_add _
  have hnext : ∀ i ∈ List.range lanes.length, ∃ lane, lanes[i]? = some lane ∧ lane.Open x := by
    intro i hi
    have hlt := mem_range.mp hi
    exact ⟨lanes[i], getElem?_eq_getElem hlt, hlanes _ (getElem_mem hlt)⟩
  have hbeyond : ∀ i ∉ List.range lanes.length, ∀ lane,
      lanes[i]? = some lane → lane.Holds x order := by
    intro i hi lane hlane
    obtain ⟨hlt, -⟩ := List.getElem?_eq_some_iff.mp hlane
    exact absurd (List.mem_range.mpr hlt) hi
  rw [scanMatchesMerged, openStreams_spec h, hopen, ofExcept_ok_bind, modify_bind, length_map]
  rcases @advanceAll_spec x decode predicate order _ _ lanes [] _
    (List.range lanes.length) nodup_range hstart hnext hbeyond with
    ⟨lanes₁, m₁, hadvance, h₁, hholds, hqueues₁⟩ | ⟨⟨err, m', herr⟩, hfull⟩
  · rw [bind_of_ok hadvance]
    rcases @mergeLoop_spec x decode predicate order _ _ lanes₁ [] m₁ horder h₁ hholds with
      ⟨out, lanes₂, m₂, hloop, h₂, hended, hmerges⟩ | ⟨⟨err, m', herr⟩, hfull⟩
    · rw [bind_of_ok hloop, modify_bind, get_bind]
      rw [hqueues₁, hqueues] at hmerges
      obtain ⟨hspool, hscanned, hmatched⟩ := sent_keeps m₂
      refine Or.inl ⟨_, _, _, out, rfl, ⟨?_, ?_, ?_, ?_, sorted_of_merges hmerges⟩⟩
      · rw [flatten_sent, hspool]
        exact h₂.shown
      · have hzero : (lanes₂.map fun lane => lane.rest.length).sum = 0 := by
          rw [sum_eq_zero_iff]
          intro n hn
          obtain ⟨lane, hlane, rfl⟩ := mem_map.mp hn
          rw [hended lane hlane]
          rfl
        have htotal := h₂.scanned
        rw [hzero, Nat.add_zero] at htotal
        rw [hscanned, htotal]
      · rw [hmatched, h₂.matched]
        rfl
      · intro i
        rw [hmerges.of_index, getElem?_map]
        cases lists[i]? with
        | none => rfl
        | some records => rfl
    · rw [bind_of_error herr]
      exact Or.inr ⟨⟨err, m', rfl⟩, hfull⟩
  · rw [bind_of_error herr]
    exact Or.inr ⟨⟨err, m', rfl⟩, hfull⟩

end

end

/-- The merged view is a stable merge of the matches. -/
theorem merged_view_merges (x : External) (decode : DecodeLogs)
    (predicate : RecordPredicate) (order : ViewOrder)
    (horder : order ≠ .concat) (sys : Surroundings) (files : Directory)
    (entries : List DatasetEntry) (lists : List (List OwnedRecord))
    (hread : List.Forall₂ (ReadsAs x files) entries lists)
    (hcount : (lists.map List.length).sum < 2 ^ 64) (spool : Bytes) : ∃ scanned matched m out,
      scanMatchesMerged x decode predicate order sys files entries
          (.start spool) = .ok (scanned, matched) m
      ∧ ShowsMerge decode predicate order (entries.map DatasetEntry.path)
          lists scanned matched m out := by
  rcases scanMatchesMerged_spec horder hread spool with hmerge | ⟨-, hfull⟩
  · exact hmerge
  · omega

def plainEntry (path : Text) : DatasetEntry := ⟨path, 0, none, none, none, none, none, none⟩

theorem merged_view_two_files : ∃ scanned matched m out,
      scanMatchesMerged external (fun _ => none) .default .mergeSeq ⟨[], 1, .ok 0⟩
          ⟨[("a".toList, twoBlocks 1 4), ("b".toList, twoBlocks 2 3)], by decide⟩
          [plainEntry "a".toList, plainEntry "b".toList] (.start []) = .ok (scanned, matched) m
      ∧ ShowsMerge (fun _ => none) .default .mergeSeq
          ["a".toList, "b".toList] [twoRecords 1 4, twoRecords 2 3] scanned matched m out := by
  obtain ⟨r₁, hread₁⟩ := @yields_twoBlocks 1 4 (by decide +kernel) (by decide +kernel)
  obtain ⟨r₂, hread₂⟩ := @yields_twoBlocks 2 3 (by decide +kernel) (by decide +kernel)
  exact merged_view_merges external (fun _ => none) .default .mergeSeq
    (by decide) _ _ _ [twoRecords 1 4, twoRecords 2 3] (.cons ⟨rfl, by decide, _, r₁, rfl, hread₁⟩
      (.cons ⟨rfl, by decide, _, r₂, rfl, hread₂⟩ .nil)) (by decide) []

def manyName (i : Nat) : Text := List.replicate (i + 1) 'a'

def manyFiles (count : Nat) (content : Bytes) : Directory where
  files := (List.range count).map fun i => (manyName i, content)
  nodup := by
    rw [map_map]
    refine List.Nodup.map ?_ nodup_range
    intro i j hij
    have hlength := congrArg List.length hij
    simpa [manyName] using hlength

def manyEntries (count : Nat) : List DatasetEntry :=
  (List.range count).map fun i => plainEntry (manyName i)

theorem readsAs_many {count : Nat} {content : Bytes}
    {records : List OwnedRecord} {r' : LogjetReader}
    (hread : Yields external (LogjetReader.withConfig content .default) records r') :
    List.Forall₂ (ReadsAs external (manyFiles count content))
      (manyEntries count) (List.replicate count records) := by
  have hsame : List.replicate count records = (List.range count).map fun _ => records := by
    rw [map_const', length_range]
  rw [hsame, manyEntries, forall₂_map_left_iff, forall₂_map_right_iff, forall₂_same]
  intro i hi
  refine ⟨rfl, ?_, content, r', ?_, hread⟩
  · intro heq
    have hmem : 'a' ∈ "-".toList := by
      rw [← heq]
      exact mem_replicate.mpr ⟨Nat.succ_ne_zero i, rfl⟩
    revert hmem
    decide
  · exact Directory.get?_eq_some_iff.mpr (mem_map.mpr ⟨i, hi, rfl⟩)

def manyRecords : List OwnedRecord := (bulkSeqs (2 ^ 48 + 2 ^ 32 + 2 ^ 16 + 1)).map bulkRecord

def manyContent : Bytes := (bulkSeqs (2 ^ 48 + 2 ^ 32 + 2 ^ 16 + 1 + 1)).flatMap bulkBody

theorem sum_manyRecords : 2 ^ 64 ≤ ((List.replicate (2 ^ 16) manyRecords).map List.length).sum := by
  have hlength : manyRecords.length = 2 ^ 48 + 2 ^ 32 + 2 ^ 16 + 1 := by
    rw [manyRecords, length_map, bulkSeqs, length_map, length_range]
  rw [map_replicate, sum_replicate_nat, hlength]
  decide

theorem merged_view_overflows : List.Forall₂ (ReadsAs external (manyFiles (2 ^ 16) manyContent))
        (manyEntries (2 ^ 16)) (List.replicate (2 ^ 16) manyRecords) ∧ ¬ ∃ scanned matched m,
        scanMatchesMerged external (fun _ => none) .default .mergeSeq
            ⟨[], 1, .ok 0⟩ (manyFiles (2 ^ 16) manyContent) (manyEntries (2 ^ 16)) (.start [])
          = .ok (scanned, matched) m := by
  obtain ⟨r', hread⟩ := yields_bulk (2 ^ 48 + 2 ^ 32 + 2 ^ 16 + 1) rfl
  have hmany := @readsAs_many (2 ^ 16) manyContent manyRecords r' hread
  refine ⟨hmany, ?_⟩
  rintro ⟨scanned, matched, m, hok⟩
  rcases @scanMatchesMerged_spec external (fun _ => none) .default .mergeSeq
    ⟨[], 1, .ok 0⟩ _ _ _ (by decide) hmany [] with
    ⟨scanned', matched', m', out, -, hshows⟩ | ⟨⟨err, m', herr⟩, -⟩
  · have hlt := scanned'.toNat_lt
    rw [hshows.scanned] at hlt
    exact absurd sum_manyRecords (Nat.not_le.mpr hlt)
  · rw [herr] at hok
    cases hok

end Logjet.Ljx
