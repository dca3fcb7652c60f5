/-
Drain mode and backpressure stop each other: the bridge waits for a record and
the server for an acknowledgement, and no step leads out of that state.
-/
import Logjet.Bridge.Drain
import Logjet.Bridge.Proofs.Backpressure
import Logjet.Reference

namespace Logjet

open List EStateM Transition

variable {x : External} {codec : LogsCodec} {config : BridgeConfig}
  {s s' : Drained} {r : WireRecord}

/-- Each side waits for the other, and the record is delivered. -/
structure Stalled (s : Drained) (r : WireRecord) : Prop where
  server : ∃ cursor, s.link.server = .awaiting cursor r
  bridge : s.bridge.phase = .reading
  down : s.link.down = []
  up : s.link.up = []
  acks : s.bridge.session.acks = []
  reported : ⟨r.seq, .ok .delivered⟩ ∈ s.bridge.results

def Offers (x : External) (s : Drained) (r : WireRecord) : Prop :=
  ∃ cursor cursor', s.link.server = .polling cursor
    ∧ s.spool.nextForCursor x cursor = .ok (some r) cursor'

structure Ready (s : Drained) : Prop where
  server : ∃ cursor, s.link.server = .polling cursor
  down : s.link.down = []
  up : s.link.up = []
  acks : s.bridge.session.acks = []
  phase : s.bridge.phase = .reading
  pending : s.bridge.pending = []
  tasks : s.bridge.tasks = []
  worker : s.bridge.worker = .idle

theorem Ready.withSpool (h : Ready s) (spool : Spool) : Ready { s with spool } :=
  ⟨h.server, h.down, h.up, h.acks, h.phase, h.pending, h.tasks, h.worker⟩

theorem Ready.withCursor (h : Ready s) (cursor : ReplayCursor) :
    Ready { s with link := { s.link with server := .polling cursor } } :=
  ⟨⟨cursor, rfl⟩, h.down, h.up, h.acks, h.phase, h.pending, h.tasks, h.worker⟩

theorem BridgeStep.reading_frame {b b' : Bridge} {e : BridgeEvent}
    (hstep : BridgeStep codec config b e b') (hphase : b.phase = .reading)
    (he : e.fromUpstream = false) : b'.phase = .reading ∧ b'.session = b.session
      ∧ b.results <+: b'.results := by
  cases hstep with
  | read | endOfStream | readFailed => cases he
  | commit _ hflush | commitFailed _ hflush | flushFailed hflush =>
    rw [hphase] at hflush
    cases hflush
  | flushed hother | enqueue hother | enqueueFailed hother
  | finished hother | joined hother =>
    rw [hphase] at hother
    cases hother
  | report => exact ⟨hphase, rfl, prefix_append _ _⟩
  | opened | openFailed | take | timeout | timeoutFailed | disconnected
  | exported | exportFailed | reportFailed | close => exact ⟨hphase, rfl, prefix_rfl⟩

theorem Stalled.step (h : Stalled s r) {e : DrainEvent}
    (hstep : StallStep x codec config s e s') : Stalled s' r := by
  obtain ⟨⟨cursor, hserver⟩, hphase, hdown, hup, hacks, hreported⟩ := h
  cases hstep with
  | append => exact ⟨⟨cursor, hserver⟩, hphase, hdown, hup, hacks, hreported⟩
  | flushPending => exact ⟨⟨cursor, hserver⟩, hphase, hdown, hup, hacks, hreported⟩
  | server hstep =>
    generalize s.link = link at *
    cases hstep with
    | request | idle | send | nextFailed | consume => cases hserver
    | ack | refuse => cases hup
  | read hrecord =>
    rw [hdown] at hrecord
    cases hrecord
  | closed hreturned =>
    rw [hserver] at hreturned
    cases hreturned
  | bridge he hstep =>
    obtain ⟨hphase', hsession, hresults⟩ := hstep.reading_frame hphase he
    refine ⟨⟨cursor, hserver⟩, hphase', hdown, ?_, rfl, hresults.subset hreported⟩
    rw [hup, hsession, hacks]
    rfl

theorem Stalled.run (h : Stalled s r) {events : List DrainEvent}
    (hrun : Run (StallStep x codec config) s events s') : Stalled s' r :=
  hrun.invariant (I := fun s => Stalled s r) h fun _ _ _ h hstep => h.step hstep

/-- The server goes on with a spool: it sends from it or consumes. -/
def DrainEvent.drains : DrainEvent → Bool
  | .send _ | .consume _ => true
  | .append _ | .silent => false

theorem Stalled.event (h : Stalled s r) {e : DrainEvent}
    (hstep : StallStep x codec config s e s') : e.drains = false := by
  obtain ⟨⟨cursor, hserver⟩, -, -, hup, -, -⟩ := h
  cases hstep with
  | append | flushPending | read | closed | bridge => rfl
  | server hstep =>
    generalize s.link = link at *
    cases hstep with
    | request | idle | nextFailed | ack | refuse => rfl
    | send | consume => cases hserver

/-- A stalled bridge stalls for good. Its record has been delivered, but whatever
is done from then on, nothing more is sent and nothing is ever consumed. -/
theorem stalled_for_good (h : Stalled s r) {events : List DrainEvent}
    (hrun : Run (StallStep x codec config) s events s') :
    Stalled s' r ∧ ∀ e ∈ events, e.drains = false := by
  have hevents := hrun.forall_events (I := fun s => Stalled s r) h
    fun _ _ _ h hstep => ⟨h.step hstep, h.event hstep⟩
  exact ⟨h.run hrun, hevents.2⟩

theorem postFor_accepts (post : Post) (collectors : List Collector) :
    Ends (postFor post []) collectors (fun _ _ => True) (fun _ _ => False) := by
  induction collectors with
  | nil => exact trivial
  | cons c rest ih =>
    unfold Ends at ih ⊢
    rw [postFor]
    simp only [headD_nil, tail_nil]
    cases hrest : postFor post [] rest with
    | ok u after => exact trivial
    | error err after =>
      rw [hrest] at ih
      exact ih

namespace Exporter

theorem post_accepts (p : Post) (self : Exporter) :
    Ends (post p []) self (fun _ _ => True) (fun _ _ => False) := by
  have h := postFor_accepts p self.collectors
  unfold Ends at h ⊢
  unfold post
  cases hpost : postFor p [] self.collectors with
  | ok u after => exact trivial
  | error err after =>
    rw [hpost] at h
    exact h

theorem flush_accepts (self : Exporter) :
    Ends (flush codec []) self (fun _ _ => True) (fun _ _ => False) := by
  apply Ends.get
  apply Ends.ite
  · intro _
    exact trivial
  · intro _
    apply Ends.modify
    exact post_accepts _ _

theorem add_accepts (payload : Bytes) (now : Nat) (self : Exporter) :
    Ends (add codec payload now []) self (fun _ _ => True) (fun _ _ => False) := by
  apply Ends.get
  apply Ends.ite
  · intro _
    exact post_accepts _ _
  · intro _
    cases codec.decode payload with
    | none => exact post_accepts _ _
    | some req =>
      apply Ends.modify
      apply Ends.ite
      · intro _
        exact flush_accepts _
      · intro _
        exact trivial

end Exporter

theorem exportTask_accepts (task : ExportTask) (self : Exporter) :
    ∃ exporter, exportTask codec ⟨0, [], 0, []⟩ task self = .ok (.ok .delivered) exporter := by
  have hends : Ends (exportTask codec ⟨0, [], 0, []⟩ task) self
      (fun result _ => result = .ok .delivered) (fun _ _ => False) := by
    apply Ends.ite
    · intro _
      apply Ends.bind
      apply Ends.attempt
      refine (Exporter.add_accepts _ _ _).mono ?_ (fun _ _ h => h.elim)
      intro _ added _
      apply Ends.bind
      apply Ends.get
      apply Ends.ite
      · intro _
        exact (Exporter.flush_accepts _).mono (fun _ _ _ => rfl) (fun _ _ h => h)
      · intro _
        exact rfl
    · intro _
      apply Ends.bind
      apply Ends.attempt
      exact (Exporter.post_accepts _ _).mono (fun _ _ _ => rfl) (fun _ _ h => h.elim)
  obtain ⟨result, exporter, hrun, rfl⟩ := hends.returns
  exact ⟨exporter, hrun⟩

theorem StallStep.own {b : Bridge} {e : BridgeEvent}
    (hacks : s.bridge.session.acks = []) (he : e.fromUpstream = false)
    (hstep : BridgeStep codec config.drain s.bridge e b) (hsession : b.session = s.bridge.session) :
    StallStep x codec config s .silent { s with bridge := b } := by
  have hb : b.session.acks = [] := hsession ▸ hacks
  have hmoved := StallStep.bridge (x := x) he hstep
  have hsame : b.handOver = b := by rw [Bridge.handOver, ← hb]
  rw [hb, hsame, map_nil, append_nil] at hmoved
  exact hmoved

theorem StallStep.idle {cursor cursor' : ReplayCursor} (hpolling : s.link.server = .polling cursor)
    (hnext : s.spool.nextForCursor x cursor = .ok none cursor') : StallStep x codec config s .silent
      { s with link := { s.link with server := .polling cursor' } } := by
  obtain ⟨spool, ⟨server, down, up⟩, bridge⟩ := s
  cases hpolling
  exact .server (.idle hnext)

theorem Ready.stalls (h : Ready s) (hoffers : Offers x s r) :
    ∃ events s', Run (StallStep x codec config) s events s' ∧ Stalled s' r := by
  obtain ⟨spool, ⟨server, down, up⟩, ⟨phase, session, pending, tasks,
    results, worker, exporter⟩⟩ := s
  obtain ⟨-, rfl, rfl, hacks, rfl, rfl, rfl, rfl⟩ := h
  obtain ⟨cursor, cursor', rfl, hnext⟩ := hoffers
  obtain ⟨exporter', hexport⟩ := @exportTask_accepts codec (.ofRecord r) exporter
  have henqueue : enqueueExportTask config.drain true []
      (.ofRecord r) = some (.ok (.queued, [.ofRecord r])) := by
    simp [enqueueExportTask, trySend, BridgeConfig.drain, config.maxBuffered_pos]
  refine ⟨_, _, .snoc (.snoc (.snoc (.snoc (.snoc (.snoc (.snoc .nil
    (.server (.send hnext))) (.read rfl (.read r rfl)))
    (.own hacks rfl (.flushed rfl (.inl rfl)) rfl)) (.own hacks rfl (.enqueue rfl henqueue) rfl))
    (.own hacks rfl (.take rfl rfl) rfl)) (.own hacks rfl (.exported _ rfl hexport) rfl))
    (.own hacks rfl (.report rfl rfl) rfl), ?_⟩
  exact ⟨⟨cursor', rfl⟩, rfl, rfl, rfl, hacks, mem_append_right _ (mem_singleton_self _)⟩

section Runs

variable {start : Drained} {events : List DrainEvent} {spool spool' : Spool}
  {link link' : Link} {e : DrainEvent}

theorem ServerStep.ne_returned (hstep : ServerStep x spool link e spool' link') :
    link.server ≠ .returned := by
  intro h
  cases hstep <;> cases h

theorem ServerStep.of_polling {cursor : ReplayCursor}
    (hstep : ServerStep x spool link e spool' link') (h : link.server = .polling cursor) :
    (∃ cursor', spool.nextForCursor x cursor = .ok none cursor'
        ∧ spool' = spool ∧ link' = { link with server := .polling cursor' }) ∨ (∃ record cursor',
        spool.nextForCursor x cursor = .ok (some record) cursor') ∨ link'.server = .returned := by
  cases hstep with
  | request | ack | refuse | consume => cases h
  | idle hnext =>
    cases h
    exact Or.inl ⟨_, hnext, rfl, rfl⟩
  | send hnext =>
    cases h
    exact Or.inr (Or.inl ⟨_, _, hnext⟩)
  | nextFailed => exact Or.inr (Or.inr rfl)

theorem offers_of_run (hrun : Run (StallStep x codec config) start events s)
    (hstart : ∃ cursor, start.link.server = .polling cursor) :
    (∃ cursor, s.link.server = .polling cursor) ∨ s.link.server = .returned
      ∨ ∃ events t r, Run (StallStep x codec config) start events t ∧ Offers x t r := by
  induction hrun with
  | nil => exact Or.inl hstart
  | snoc hrun hstep ih =>
    cases hstep with
    | append | flushPending | read | closed | bridge => exact ih
    | server hserver =>
      rcases ih with ⟨cursor, hpolling⟩ | hreturned | hoffers
      · rcases hserver.of_polling hpolling with ⟨cursor', -, -, rfl⟩
          | ⟨record, cursor', hnext⟩ | hreturned
        · exact Or.inl ⟨cursor', rfl⟩
        · exact Or.inr (Or.inr ⟨_, _, record, hrun, cursor, cursor', hpolling, hnext⟩)
        · exact Or.inr (Or.inl hreturned)
      · exact absurd hreturned hserver.ne_returned
      · exact Or.inr (Or.inr hoffers)

theorem ready_of_run {session : Session} {collectors : List Collector} {cursor : ReplayCursor}
    (hrun : Run (StallStep x codec config)
      (Drained.start config spool cursor session collectors) events s) :
    (∃ events t r, Run (StallStep x codec config)
        (Drained.start config spool cursor session collectors) events t ∧ Stalled t r)
      ∨ s.link.server = .returned ∨ ∃ events t, Run (StallStep x codec config)
          (Drained.start config spool cursor session collectors) events t
        ∧ Ready t ∧ t.spool = s.spool ∧ t.link.server = s.link.server := by
  -- a run that has not stalled can be replayed up to a bridge that reads
  induction hrun with
  | nil =>
    refine Or.inr (Or.inr ⟨_, _, .snoc .nil (.own rfl rfl (.opened rfl) rfl), ?_, rfl, rfl⟩)
    exact ⟨⟨cursor, rfl⟩, rfl, rfl, rfl, rfl, rfl, rfl, rfl⟩
  | snoc hrun hstep ih =>
    rcases ih with hstalls | hreturned | ⟨_, t, ht, hready, hspool, hserver⟩
    · exact Or.inl hstalls
    · cases hstep with
      | append | flushPending | read | closed | bridge => exact Or.inr (Or.inl hreturned)
      | server hstep => exact absurd hreturned hstep.ne_returned
    · cases hstep with
      | read | closed | bridge => exact Or.inr (Or.inr ⟨_, t, ht, hready, hspool, hserver⟩)
      | append record happend =>
        rw [← hspool] at happend
        exact Or.inr (Or.inr ⟨_, _, .snoc ht (.append record happend),
          hready.withSpool _, rfl, hserver⟩)
      | flushPending hflush =>
        rw [← hspool] at hflush
        exact Or.inr (Or.inr ⟨_, _, .snoc ht (.flushPending hflush),
          hready.withSpool _, rfl, hserver⟩)
      | server hstep =>
        obtain ⟨cursor', hpolling⟩ := hready.server
        rcases hstep.of_polling (hserver ▸ hpolling) with
          ⟨cursor'', hnext, rfl, rfl⟩ | ⟨record, cursor'', hnext⟩
          | hreturned
        · rw [← hspool] at hnext
          exact Or.inr (Or.inr ⟨_, _, .snoc ht (.idle hpolling hnext),
            hready.withCursor cursor'', hspool, rfl⟩)
        · rw [← hspool] at hnext
          obtain ⟨_, q, hq, hstalled⟩ := @Ready.stalls x codec config _ _
            hready ⟨cursor', cursor'', hpolling, hnext⟩
          exact Or.inl ⟨_, q, record, ht.trans hq, hstalled⟩
        · exact Or.inr (Or.inl hreturned)

end Runs

/-- Some run of the drain stalls iff some run offers it a record. -/
theorem never_stalls_iff (x : External) (codec : LogsCodec)
    (config : BridgeConfig) (spool : Spool) (cursor : ReplayCursor)
    (session : Session) (collectors : List Collector) :
    (∀ events s r, Run (StallStep x codec config)
        (Drained.start config spool cursor session collectors) events s → ¬ Stalled s r)
      ↔ ∀ events s r, Run (StallStep x codec config)
        (Drained.start config spool cursor session collectors) events s → ¬ Offers x s r := by
  constructor
  · intro hnever events s r hrun hoffers
    have ⟨cursor', _, hpolling, _⟩ := hoffers
    rcases ready_of_run hrun with ⟨_, t, q, ht, hstalled⟩ | hreturned
      | ⟨_, t, ht, hready, hspool, hserver⟩
    · exact hnever _ t q ht hstalled
    · rw [hpolling] at hreturned
      cases hreturned
    · have hoffers' : Offers x t r := by
        unfold Offers
        rw [hspool, hserver]
        exact hoffers
      obtain ⟨_, q, hq, hstalled⟩ := @Ready.stalls x codec config _ _ hready hoffers'
      exact hnever _ q r (ht.trans hq) hstalled
  · intro hnever events s r hrun hstalled
    obtain ⟨cursor', hawaiting⟩ := hstalled.server
    rcases offers_of_run hrun ⟨cursor, rfl⟩ with ⟨_, hpolling⟩ | hreturned
      | ⟨_, t, q, ht, hoffers⟩
    · rw [hawaiting] at hpolling
      cases hpolling
    · rw [hawaiting] at hreturned
      cases hreturned
    · exact hnever _ t q ht hoffers

def oneRecord : Drained :=
  .start pairConfig
    (.buffer { streamId := 1, limit := .messages 10, keepMessages := 0
               records := [logRecord 1 oneLog], tailBytes := 27 })
    (.buffer { nextIndex := 0, lastSeq := 0 }) freshSession [⟨[]⟩]

theorem drain_with_backpressure_stalls : ∃ events s,
    Run (StallStep Reference.external tableCodec pairConfig) oneRecord events s
      ∧ Stalled s (logRecord 1 oneLog) := by
  let t : Drained := { oneRecord with bridge := { oneRecord.bridge with worker := .idle } }
  have hopened : StallStep Reference.external tableCodec pairConfig
      oneRecord .silent t := .own rfl rfl (.opened rfl) rfl
  have hready : Ready t := ⟨⟨_, rfl⟩, rfl, rfl, rfl, rfl, rfl, rfl, rfl⟩
  have hoffers : Offers Reference.external t (logRecord 1 oneLog) := ⟨_, _, rfl, rfl⟩
  obtain ⟨events, s, hrun, hstalled⟩ := @Ready.stalls Reference.external
    tableCodec pairConfig t (logRecord 1 oneLog) hready hoffers
  exact ⟨_, s, (Run.snoc .nil hopened).trans hrun, hstalled⟩

def stalledRecord : Drained :=
  { oneRecord with
    link := ⟨.awaiting (.buffer { nextIndex := 1, lastSeq := 1 }) (logRecord 1 oneLog), [], []⟩
    bridge := { oneRecord.bridge with worker := .idle, results := [⟨1, .ok .delivered⟩] } }

theorem stalledRecord_for_good : Stalled stalledRecord (logRecord 1 oneLog) ∧ ∃ s',
    Run (StallStep Reference.external tableCodec pairConfig)
        stalledRecord [.append (logRecord 2 oneLog)] s'
      ∧ Stalled s' (logRecord 1 oneLog) ∧ ∀ e ∈ [DrainEvent.append (logRecord 2 oneLog)],
        e.drains = false := by
  have hstalled : Stalled stalledRecord (logRecord 1 oneLog) :=
    ⟨⟨_, rfl⟩, rfl, rfl, rfl, rfl, mem_singleton_self _⟩
  have hrun : Run (StallStep Reference.external tableCodec pairConfig)
      stalledRecord [.append (logRecord 2 oneLog)] _ := .snoc .nil (.append (logRecord 2 oneLog) rfl)
  exact ⟨hstalled, _, hrun, stalled_for_good hstalled hrun⟩

end Logjet
