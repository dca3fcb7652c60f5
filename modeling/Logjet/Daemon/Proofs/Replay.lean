/-
No wakeup is lost: what comes after a client found nothing comes with a
`notify_change` after it (`Awake`).
-/
import Logjet.Daemon.Replay
import Logjet.Spool.Proofs.Buffer

namespace Logjet

open List Transition UInt64

variable {ι κ : Type}

theorem notifiesBy_snoc (events : List (ReplayEvent ι κ)) (e : ReplayEvent ι κ) :
    notifiesBy (events ++ [e]) = notifiesBy events + notifiesBy [e] := countP_append

def ReplayPhase.place : ReplayPhase → Option ReplayPlace
  | .polling place _ | .writing place _ | .flushing place
  | .awaiting place _ | .acked place _ | .waiting place => some place
  | _ => none

def BufferSpool.Exhausted (sp : BufferSpool) (c : BufferReplayCursor) : Prop :=
  ∀ r ∈ sp.records, r.seq ≤ c.lastSeq

/-- A client is blocked only after it has read to the end. -/
structure Awake (events : List (ReplayEvent ι κ)) (s : SharedSpool ι κ) : Prop where
  generation : s.generation.toNat = notifiesBy events
  seen : ∀ k place, (s.clients k).place = some place → place.seenGeneration ≤ s.generation
  blocked : ∀ k place, s.Blocked k place →
    (∀ i, s.appending i = false) → s.spool.Exhausted place.cursor

theorem awake_new (spool : BufferSpool) : Awake [] (SharedSpool.new spool : SharedSpool ι κ) where
  generation := rfl
  seen _ _ hplace := nomatch hplace
  blocked _ _ hblocked := nomatch hblocked.1

variable {sp : BufferSpool} {c : BufferReplayCursor}

theorem BufferSpool.exhausted_of_none
    {c' : BufferReplayCursor} (h : sp.nextForCursor c = (none, c')) :
    c' = c ∧ sp.Exhausted c := by
  unfold nextForCursor at h
  split at h
  case h_1 => cases h
  case h_2 =>
    split at h
    case h_1 hfind =>
      cases h
      refine ⟨rfl, fun r hr => ?_⟩
      simpa using findIdx?_eq_none_iff.mp hfind r hr
    case h_2 i hfind =>
      obtain ⟨hlt, -⟩ := findIdx?_eq_some_iff_getElem.mp hfind
      rw [getElem?_eq_getElem hlt] at h
      cases h

theorem BufferSpool.Exhausted.sublist {sp' : BufferSpool} (h : sp.Exhausted c)
    (hsub : sp'.records.Sublist sp.records) : sp'.Exhausted c := fun r hr => h r (hsub.subset hr)

section Steps

variable {events : List (ReplayEvent ι κ)} {s s' : SharedSpool ι κ} {e : ReplayEvent ι κ}

theorem Awake.append [DecidableEq ι] (h : Awake events s) (i : ι) (record : WireRecord) :
    Awake (events ++ [.append i record])
      { s with spool := s.spool.append record
               appending := Function.update s.appending i true } where
  generation := by
    rw [notifiesBy_snoc]
    exact h.generation
  seen := h.seen
  blocked k place _ hnone := by
    have hi : Function.update s.appending i true i = false := hnone i
    rw [Function.update_self] at hi
    cases hi

theorem Awake.notify (h : Awake events s)
    (hcount : notifiesBy events + 1 < 2 ^ 64) (appending : ι → Bool) : Awake (events ++ [.notify])
      { s with generation := saturatingSucc s.generation
               appending } := by
  rw [← h.generation] at hcount
  have hsucc := toNat_saturatingSucc s.generation
  rw [Nat.min_eq_right (by omega)] at hsucc
  have hlt : s.generation < saturatingSucc s.generation := by
    rw [lt_iff_toNat_lt, hsucc]
    exact Nat.lt_succ_self _
  refine ⟨?_, ?_, ?_⟩
  · rw [notifiesBy_snoc, ← h.generation]
    exact hsucc
  · intro k place hplace
    exact UInt64.le_of_lt (UInt64.lt_of_le_of_lt (h.seen k place hplace) hlt)
  · intro k place ⟨hwaiting, hseen⟩
    have hle := h.seen k place (by rw [hwaiting]; rfl)
    rw [← hseen] at hle
    exact absurd hlt (UInt64.not_lt.mpr hle)

theorem moveTo_self [DecidableEq κ] (k : κ) (phase : ReplayPhase) :
    (s.moveTo k phase).clients k = phase := Function.update_self ..

theorem moveTo_of_ne [DecidableEq κ] {j k : κ} (h : j ≠ k)
    {phase : ReplayPhase} : (s.moveTo k phase).clients j = s.clients j := Function.update_of_ne h ..

theorem Awake.moveTo [DecidableEq κ] (h : Awake events s) (k : κ) (phase : ReplayPhase)
    (hseen : ∀ place, phase.place = some place → place.seenGeneration ≤ s.generation)
    (hwaiting : ∀ place, phase = .waiting place → s.spool.Exhausted place.cursor) :
    Awake (events ++ [.client k]) (s.moveTo k phase) where
  generation := by
    rw [notifiesBy_snoc]
    exact h.generation
  seen j place hplace := by
    by_cases hj : j = k
    · subst hj
      rw [moveTo_self] at hplace
      exact hseen place hplace
    · rw [moveTo_of_ne hj] at hplace
      exact h.seen j place hplace
  blocked j place hblocked hnone := by
    obtain ⟨hphase, hgeneration⟩ := hblocked
    by_cases hj : j = k
    · subst hj
      rw [moveTo_self] at hphase
      exact hwaiting place hphase
    · rw [moveTo_of_ne hj] at hphase
      exact h.blocked j place ⟨hphase, hgeneration⟩ hnone

theorem Awake.withSpool (h : Awake events s) (spool : BufferSpool)
    (hsub : spool.records.Sublist s.spool.records) : Awake events { s with spool } where
  generation := h.generation
  seen := h.seen
  blocked k place hblocked hnone := (h.blocked k place hblocked hnone).sublist hsub

variable [DecidableEq ι] [DecidableEq κ]

theorem Awake.step (h : Awake events s) (hcount : notifiesBy (events ++ [e]) < 2 ^ 64)
    (hstep : ReplayStep s e s') : Awake (events ++ [e]) s' := by
  rw [notifiesBy_snoc] at hcount
  have hkeeps : ∀ {k : κ} {place place' : ReplayPlace} (phase : ReplayPhase),
      (s.clients k).place = some place → phase.place = some place' →
      place'.seenGeneration = place.seenGeneration → (∀ place', phase ≠ .waiting place') →
      Awake (events ++ [.client k]) (s.moveTo k phase) := by
    intro k place place' phase hplace hplace' hsame hno
    refine h.moveTo k phase ?_ fun q hphase => absurd hphase (hno q)
    intro q hq
    rw [hplace'] at hq
    cases hq
    rw [hsame]
    exact h.seen k place hplace
  cases hstep with
  | append record _ => exact h.append _ record
  | notify _ => exact h.notify hcount _
  | flushLoop => exact h.notify hcount _
  | @request k fromSeq consume _ => exact h.moveTo k _ (fun _ => nofun) fun _ => nofun
  | @sample k cursor consume _ =>
    refine h.moveTo k _ ?_ (fun _ => nofun)
    intro place hplace
    cases hplace
    exact UInt64.le_refl _
  | found hphase _ => exact hkeeps _ (congrArg _ hphase) rfl rfl fun _ => nofun
  | @noneFound k place sentAny cursor hphase hnext =>
    obtain ⟨rfl, hexhausted⟩ := BufferSpool.exhausted_of_none hnext
    cases sentAny with
    | true => exact hkeeps _ (congrArg _ hphase) rfl rfl fun _ => nofun
    | false =>
      refine h.moveTo k _ ?_ ?_
      · intro place' hplace'
        cases hplace'
        exact h.seen k place (by rw [hphase]; rfl)
      · intro place' hplace'
        cases hplace'
        exact hexhausted
  | @written k place record hphase =>
    obtain ⟨cursor, seen, consume⟩ := place
    cases consume with
    | true => exact hkeeps _ (congrArg _ hphase) rfl rfl fun _ => nofun
    | false => exact hkeeps _ (congrArg _ hphase) rfl rfl fun _ => nofun
  | flushed hphase => exact hkeeps _ (congrArg _ hphase) rfl rfl fun _ => nofun
  | @woken k place _ _ =>
    refine h.moveTo k _ ?_ (fun _ => nofun)
    intro place' hplace'
    cases hplace'
    exact UInt64.le_refl _
  | ack hphase => exact hkeeps _ (congrArg _ hphase) rfl rfl fun _ => nofun
  | @consume k place seq hphase =>
    have hmoved := hkeeps (.polling place false) (congrArg _ hphase) rfl rfl fun _ => nofun
    exact hmoved.withSpool _ (BufferSpool.consumeThrough_sublist _ _)
  | @gone k _ => exact h.moveTo k _ (fun _ => nofun) fun _ => nofun

end Steps

variable [DecidableEq ι] [DecidableEq κ]

theorem awake_of_run {spool : BufferSpool} {events : List (ReplayEvent ι κ)} {s : SharedSpool ι κ}
    (hrun : Run ReplayStep (.new spool) events s)
    (hcount : notifiesBy events < 2 ^ 64) : Awake events s := by
  induction hrun with
  | nil => exact awake_new spool
  | @snoc events _ _ _ _ hstep ih =>
    have hbefore : notifiesBy events < 2 ^ 64 := by
      rw [notifiesBy_snoc] at hcount
      exact Nat.lt_of_le_of_lt (Nat.le_add_right _ _) hcount
    exact (ih hbefore).step hcount hstep

/-- A client that sleeps has been sent everything. -/
theorem no_lost_wakeup (spool : BufferSpool) {events : List (ReplayEvent ι κ)} {s : SharedSpool ι κ}
    (hrun : Run ReplayStep (.new spool) events s)
    (hcount : notifiesBy events < 2 ^ 64) {k : κ} {place : ReplayPlace}
    (hblocked : s.Blocked k place) (hnone : ∀ i, s.appending i = false) :
    ∀ r ∈ s.spool.records, r.seq ≤ place.cursor.lastSeq :=
  (awake_of_run hrun hcount).blocked k place hblocked hnone

open Reference

def lastOnly : BufferSpool := .new { limit := .messages 1, keepMessages := 0 } 7

theorem no_lost_wakeup_seen : ∃ (events : List (ReplayEvent Unit Unit)) (s : SharedSpool Unit Unit)
      (place : ReplayPlace), Run ReplayStep (.new lastOnly) events s
        ∧ notifiesBy events < 2 ^ 64 ∧ s.Blocked () place ∧ (∀ i, s.appending i = false)
        ∧ s.spool.records = [smallRecord 1]
        ∧ ∀ r ∈ s.spool.records, r.seq ≤ place.cursor.lastSeq := by
  have hnext : (lastOnly.append (smallRecord 1)).nextForCursor
      ((lastOnly.append (smallRecord 1)).replayCursorAfter 1) = (none, ⟨1, 1⟩) := by decide +kernel
  have r₁ : Run ReplayStep (.new lastOnly : SharedSpool Unit Unit) _ _ :=
    .snoc .nil (.append (i := ()) (smallRecord 1) rfl)
  have r₂ := r₁.snoc (.notify (i := ()) rfl)
  have r₃ := r₂.snoc (.request (k := ()) 1 false rfl)
  have r₄ := r₃.snoc (.sample (k := ()) rfl)
  have r₅ := r₄.snoc (.noneFound (k := ()) rfl hnext)
  exact ⟨_, _, ⟨⟨1, 1⟩, 1, false⟩, r₅, by decide, ⟨rfl, rfl⟩, fun _ => rfl, by decide +kernel,
    @no_lost_wakeup Unit Unit _ _ lastOnly _ _ r₅ (by decide) ()
      ⟨⟨1, 1⟩, 1, false⟩ ⟨rfl, rfl⟩ fun _ => rfl⟩

def nthRecord (n : Nat) : WireRecord := smallRecord (.ofNat n)

structure KeepsLast (sp : BufferSpool) (last : Option WireRecord) : Prop where
  limit : sp.limit = .messages 1
  keepMessages : sp.keepMessages = 0
  records : sp.records = last.toList

theorem KeepsLast.append {last : Option WireRecord}
    (h : KeepsLast sp last) (r : WireRecord) : KeepsLast (sp.append r) (some r) := by
  obtain ⟨streamId, limit, keepMessages, records, tailBytes⟩ := sp
  obtain ⟨hlimit, hkeep, hrecords⟩ := h
  subst hlimit hkeep hrecords
  cases last with
  | none =>
    constructor <;>
      simp [BufferSpool.append, BufferSpool.enforceLimits,
        BufferSpool.overLimit, BufferSpool.tailLen]
  | some q =>
    constructor <;>
      simp [BufferSpool.append, BufferSpool.enforceLimits,
        BufferSpool.overLimit, BufferSpool.tailLen]

def SharedSpool.numbered (sp : BufferSpool) (n : Nat) : SharedSpool Unit Unit :=
  { spool := sp, generation := .ofNat n, appending := fun _ => false
    clients := fun _ => .greeted }

variable {n : Nat}

theorem saturatingSucc_ofNat (h : n + 1 < 2 ^ 64) :
    saturatingSucc (.ofNat n) = .ofNat (n + 1) := by
  have hn : (UInt64.ofNat n).toNat = n := toNat_ofNat_of_lt' (by
      show n < 2 ^ 64
      omega)
  rw [saturatingSucc, hn, if_pos h]
  exact (ofNat_add n 1).symm

theorem run_numbered (n : Nat) (hn : n < 2 ^ 64) : ∃ events sp last, Run ReplayStep (.new lastOnly)
        events (SharedSpool.numbered sp n) ∧ storedBy events = (List.range n).map nthRecord
      ∧ KeepsLast sp last ∧ last = (List.range n).getLast?.map nthRecord := by
  induction n with
  | zero => exact ⟨[], lastOnly, none, .nil, rfl, ⟨rfl, rfl, rfl⟩, rfl⟩
  | succ n ih =>
    obtain ⟨events, sp, last, hrun, hstored, hkeeps, -⟩ := ih (by omega)
    have r₁ := hrun.snoc (.append (i := ()) (nthRecord n) rfl)
    have r₂ := r₁.snoc (.notify (i := ()) rfl)
    have hstate : { SharedSpool.numbered (sp.append (nthRecord n)) n with
        generation := saturatingSucc (.ofNat n)
        appending := Function.update
          (Function.update (fun _ => false) () true) () false }
        = SharedSpool.numbered (sp.append (nthRecord n)) (n + 1) := by
      rw [saturatingSucc_ofNat hn, Function.update_idem]
      simp [SharedSpool.numbered]
    refine ⟨_, _, _, hstate ▸ r₂, ?_, hkeeps.append _, ?_⟩
    · rw [range_succ, map_append, ← hstored]
      simp [storedBy]
    · simp [range_succ]

theorem nthRecord_lt {m : Nat} (hlt : m < n) (hn : n < 2 ^ 64) :
    (nthRecord m).seq < (nthRecord n).seq := by
  rw [lt_iff_toNat_lt]
  simp only [nthRecord, smallRecord]
  rw [toNat_ofNat_of_lt' (by show m < 2 ^ 64; omega),
    toNat_ofNat_of_lt' (by show n < 2 ^ 64; omega)]
  exact hlt

theorem nthRecords_increase (hn : n ≤ 2 ^ 64) :
    ((List.range n).map nthRecord).Pairwise fun a b => a.seq < b.seq := by
  rw [pairwise_map]
  refine (pairwise_lt_range (n := n)).imp_of_mem ?_
  intro a b _ hb hlt
  exact nthRecord_lt hlt (Nat.lt_of_lt_of_le (mem_range.mp hb) hn)

theorem saturatingSucc_max (hn : n + 1 = 2 ^ 64) :
    saturatingSucc (.ofNat n) = .ofNat n := by
  rw [saturatingSucc, toNat_ofNat_of_lt' (by show n < 2 ^ 64; omega), if_neg (by omega)]

theorem BufferSpool.Exhausted.next (h : sp.Exhausted c) : sp.nextForCursor c = (none, c):= by
  rcases @nextForCursor_spec sp c (fun _ r hr => h r (mem_of_mem_take hr)) with ⟨hnone, -⟩
    | ⟨before, r, after, hsplit, -, habove, -⟩
  · exact hnone
  · have hr : r ∈ sp.records := by
      rw [hsplit]
      exact mem_append_right _ mem_cons_self
    exact absurd habove (UInt64.not_lt.mpr (h r hr))

theorem wakeup_lost (hn : n + 2 = 2 ^ 64) :
    ∃ (events : List (ReplayEvent Unit Unit)) (s : SharedSpool Unit Unit)
      (place : ReplayPlace), Run ReplayStep (.new lastOnly) events s
        ∧ (storedBy events).Pairwise (fun a b => a.seq < b.seq)
        ∧ s.Blocked () place ∧ (∀ i, s.appending i = false)
        ∧ ∃ r ∈ s.spool.records, place.cursor.lastSeq < r.seq := by
  obtain ⟨events, sp, _, hrun, hstored, hkeeps, rfl⟩ := run_numbered (n + 1) (by omega)
  have hexhausted : sp.Exhausted (sp.replayCursorAfter (.ofNat n)) := by
    intro r hr
    rw [hkeeps.records, range_succ, getLast?_concat] at hr
    cases mem_singleton.mp hr
    exact UInt64.le_refl _
  have hmem : nthRecord (n + 1) ∈ (sp.append (nthRecord (n + 1))).records := by
    rw [(hkeeps.append _).records]
    exact mem_singleton_self _
  have r₁ := hrun.snoc (.request (k := ()) (.ofNat n) false rfl)
  have r₂ := r₁.snoc (.sample (k := ()) rfl)
  have r₃ := r₂.snoc (.noneFound (k := ()) rfl hexhausted.next)
  have r₄ := r₃.snoc (.append (i := ()) (nthRecord (n + 1)) rfl)
  have r₅ := r₄.snoc (.notify (i := ()) rfl)
  refine ⟨_, _, ⟨sp.replayCursorAfter (.ofNat n), .ofNat (n + 1), false⟩, r₅,
    ?_, ⟨rfl, saturatingSucc_max (by omega)⟩, fun _ => rfl,
    nthRecord (n + 1), hmem, nthRecord_lt (Nat.lt_succ_self n) (by omega)⟩
  have hall := nthRecords_increase (n := n + 2) (by omega)
  rw [range_succ, map_append, ← hstored] at hall
  simpa [storedBy] using hall

theorem wakeup_lost_at_saturation :
    ∃ (events : List (ReplayEvent Unit Unit)) (s : SharedSpool Unit Unit)
      (place : ReplayPlace), Run ReplayStep (.new lastOnly) events s
        ∧ (storedBy events).Pairwise (fun a b => a.seq < b.seq)
        ∧ s.Blocked () place ∧ (∀ i, s.appending i = false)
        ∧ ∃ r ∈ s.spool.records, place.cursor.lastSeq < r.seq :=
  @wakeup_lost (2 ^ 64 - 2) (by decide)

end Logjet
