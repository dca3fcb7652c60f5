/-
Draining without backpressure loses nothing: every number that goes around is
`Good` (what is stored at or below has been posted), every record `Due`. A post
makes a due record's number good.
-/
import Logjet.Bridge.Net
import Logjet.Bridge.Proofs.Batcher
import Logjet.Spool.Proofs.Stock

namespace Logjet

open List EStateM Transition EStateM

variable {x : External}

structure Ledger where
  base : UInt64
  appended : List WireRecord
  stored : List WireRecord
  collectors : List Collector

namespace Ledger

variable {L L' : Ledger}

def Posted (L : Ledger) (r : WireRecord) : Prop :=
  ∀ c ∈ L.collectors, WireRecord.post r ∈ c.accepted

structure Good (L : Ledger) (n : UInt64) : Prop where
  reached : n ≤ L.base ∨ ∃ a ∈ L.appended, n ≤ a.seq
  posted : ∀ r ∈ L.stored, r.seq ≤ n → L.Posted r

structure Due (L : Ledger) (r : WireRecord) : Prop where
  appended : r ∈ L.appended
  before : ∀ q ∈ L.stored, q.seq < r.seq → L.Posted q

structure Advances (L L' : Ledger) : Prop where
  good : ∀ n, L.Good n → L'.Good n
  due : ∀ r, L.Due r → L'.Due r

variable {r : WireRecord}

theorem Posted.grew (h : L.Posted r)
    {collectors : List Collector} (hgrew : Grew L.collectors collectors) :
    ({ L with collectors } : Ledger).Posted r := by
  intro d hd
  obtain ⟨c, hc, hstarts⟩ := hgrew.of_mem hd
  exact hstarts.subset (h c hc)

theorem advances_collectors {collectors : List Collector} (hgrew : Grew L.collectors collectors) :
    L.Advances { L with collectors } where
  good _ h := ⟨h.reached, fun r hr hle => (h.posted r hr hle).grew hgrew⟩
  due _ h := ⟨h.appended, fun q hq hlt => (h.before q hq hlt).grew hgrew⟩

theorem advances_stored {stored : List WireRecord}
    (hsub : stored.Sublist L.stored) : L.Advances { L with stored } where
  good _ h := ⟨h.reached, fun r hr => h.posted r (hsub.subset hr)⟩
  due _ h := ⟨h.appended, fun q hq => h.before q (hsub.subset hq)⟩

theorem advances_append {stored : List WireRecord}
    (hsub : stored.Sublist (L.stored ++ [r])) (hbase : L.base < r.seq)
    (hnew : ∀ a ∈ L.appended, a.seq < r.seq) :
    L.Advances { L with appended := L.appended ++ [r], stored } where
  good n h := by
    have hlt : n < r.seq := by
      rcases h.reached with hle | ⟨a, ha, hle⟩
      · exact UInt64.lt_of_le_of_lt hle hbase
      · exact UInt64.lt_of_le_of_lt hle (hnew a ha)
    refine ⟨?_, ?_⟩
    · rcases h.reached with hle | ⟨a, ha, hle⟩
      · exact Or.inl hle
      · exact Or.inr ⟨a, mem_append_left _ ha, hle⟩
    · intro q hq hle
      rcases mem_snoc.mp (hsub.subset hq) with hq | rfl
      · exact h.posted q hq hle
      · exact absurd hlt (UInt64.not_lt.mpr hle)
  due s h := by
    refine ⟨mem_append_left _ h.appended, ?_⟩
    intro q hq hlt
    rcases mem_snoc.mp (hsub.subset hq) with hq | rfl
    · exact h.before q hq hlt
    · exact absurd (UInt64.lt_trans hlt (hnew s h.appended)) (UInt64.lt_irrefl _)

theorem good_of_le_base {n : UInt64} (hle : n ≤ L.base) (hbase : ∀ a ∈ L.appended, L.base < a.seq)
    (hsub : L.stored.Sublist L.appended) : L.Good n where
  reached := Or.inl hle
  posted r hr hrn := absurd (UInt64.lt_of_lt_of_le (hbase r (hsub.subset hr))
      (UInt64.le_trans hrn hle)) (UInt64.lt_irrefl _)

theorem eq_of_seq {records : List WireRecord}
    (hsorted : records.Pairwise fun a b => a.seq < b.seq) {q : WireRecord}
    (hq : q ∈ records) (hr : r ∈ records) (hseq : q.seq = r.seq) : q = r := by
  obtain ⟨before, after, rfl⟩ := append_of_mem hr
  rcases mem_append.mp hq with hq | hq
  · have hlt := (pairwise_append.mp hsorted).2.2 q hq r mem_cons_self
    exact absurd (hseq ▸ hlt) (UInt64.lt_irrefl _)
  · rcases mem_cons.mp hq with rfl | hq
    · rfl
    · have hlt := rel_of_pairwise_cons (pairwise_append.mp hsorted).2.1 hq
      exact absurd (hseq ▸ hlt) (UInt64.lt_irrefl _)

theorem Due.good (h : L.Due r) (hposted : L.Posted r)
    (hsorted : L.appended.Pairwise fun a b => a.seq < b.seq)
    (hsub : L.stored.Sublist L.appended) : L.Good r.seq where
  reached := Or.inr ⟨r, h.appended, UInt64.le_refl _⟩
  posted q hq hle := by
    by_cases hlt : q.seq < r.seq
    · exact h.before q hq hlt
    · have hseq := UInt64.le_antisymm hle (UInt64.not_lt.mp hlt)
      rw [eq_of_seq hsorted (hsub.subset hq) h.appended hseq]
      exact hposted

end Ledger

theorem Session.writeBridgeState_ends (fault : Option CommitFault) (self : Session) :
    Ends (Session.writeBridgeState fault) self
      (fun _ after => after.state = self.state ∧ after.acks = self.acks
        ∧ (after.saved = self.saved ∨ after.saved = some self.state))
      (fun _ after => after = self) := by
  apply Ends.get
  apply Ends.ite
  · intro _
    exact ⟨rfl, rfl, Or.inl rfl⟩
  · intro _
    cases fault with
    | none => exact ⟨rfl, rfl, Or.inr rfl⟩
    | some fault =>
      cases fault with
      | stateWrite err => exact rfl
      | ackWrite err => exact ⟨rfl, rfl, Or.inr rfl⟩

theorem Session.commitRecord_ends (seq : UInt64) (fault : Option CommitFault) (self : Session) :
    Ends (Session.commitRecord .drain seq fault) self
      (fun _ after => after.state = { self.state with lastSeq := seq }
        ∧ (after.saved = self.saved ∨ after.saved = some after.state)
        ∧ after.acks = self.acks ++ [seq])
      (fun _ after => after.state = { self.state with lastSeq := seq }
        ∧ (after.saved = self.saved ∨ after.saved = some after.state)) := by
  apply Ends.modify
  apply Ends.bind
  refine (Session.writeBridgeState_ends fault _).mono ?_ ?_
  · intro _ written ⟨hstate, hacks, hsaved⟩
    have hsaved' : written.saved = self.saved ∨ written.saved = some written.state := by
      rw [hstate]
      exact hsaved
    cases fault with
    | none => exact ⟨hstate, hsaved', congrArg (· ++ [seq]) hacks⟩
    | some fault =>
      cases fault with
      | stateWrite err => exact ⟨hstate, hsaved', congrArg (· ++ [seq]) hacks⟩
      | ackWrite err => exact ⟨hstate, hsaved'⟩
  · intro err written hsame
    rw [hsame]
    exact ⟨rfl, Or.inl rfl⟩

theorem reconcileBridgeState_lastSeq (state : BridgeState) (hello : ReplayHello) :
    (reconcileBridgeState state hello).lastSeq = 0
      ∨ (reconcileBridgeState state hello).lastSeq = state.lastSeq := by
  unfold reconcileBridgeState
  cases state.streamId with
  | some id =>
    simp only
    split
    · exact Or.inl rfl
    · exact Or.inr rfl
  | none =>
    simp only
    split
    · exact Or.inl rfl
    · exact Or.inr rfl

inductive ServerSound (L : Ledger) (spool : Spool) (view : SpoolView x) : ServerPhase → Prop
  | greeted : ServerSound L spool view .greeted
  | polling {cursor : ReplayCursor} {n : UInt64}
      (placed : Placed n spool view cursor) (good : L.Good n) :
      ServerSound L spool view (.polling cursor)
  | awaiting {cursor : ReplayCursor} {r : WireRecord}
      (placed : Placed r.seq spool view cursor) (due : L.Due r) :
      ServerSound L spool view (.awaiting cursor r)
  | acked {cursor : ReplayCursor} {seq : UInt64}
      (placed : Placed seq spool view cursor) (good : L.Good seq) :
      ServerSound L spool view (.acked cursor seq)
  | returned : ServerSound L spool view .returned

/-- The sequence number a message of the bridge names. -/
def Upward.seq : Upward → UInt64
  | .request fromSeq => fromSeq
  | .ack seq => seq

structure LinkSound (L : Ledger) (spool : Spool) (view : SpoolView x) (link : Link) : Prop where
  server : ServerSound L spool view link.server
  records : ∀ r, .record r ∈ link.down → L.Due r
  named : ∀ m ∈ link.up, L.Good m.seq

structure SessionSound (L : Ledger) (session : Session) : Prop where
  state : L.Good session.state.lastSeq
  saved : ∀ state, session.saved = some state → L.Good state.lastSeq

def PhaseSound (L : Ledger) : NetPhase → Prop
  | .posting _ r => L.Due r
  | .committing _ r => L.Good r.seq
  | _ => True

def Net.ledger (base : UInt64) (appended : List WireRecord)
    (view : SpoolView x) (s : Net) : Ledger :=
  { base, appended, stored := view.stored, collectors := s.collectors }

/-- Up to each number on its way back, all records are posted. -/
structure Sound (config : StorageConfig) (base : UInt64)
    (appended : List WireRecord) (view : SpoolView x) (s : Net) : Prop where
  stock : Stocks config appended s.spool view
  consumed : (s.ledger base appended view).Good s.spool.consumed
  links : ∀ link ∈ s.links, LinkSound (s.ledger base appended view) s.spool view link
  session : SessionSound (s.ledger base appended view) s.session
  phase : PhaseSound (s.ledger base appended view) s.phase

section Advance

variable {L L' : Ledger} {spool spool' : Spool} {view view' : SpoolView x}

theorem ServerSound.advance {server : ServerPhase}
    (h : ServerSound L spool view server) (hadvances : L.Advances L')
    (hplaces : KeepsPlaces spool view spool' view') : ServerSound L' spool' view' server := by
  cases h with
  | greeted => exact .greeted
  | polling placed good => exact .polling (hplaces _ _ placed) (hadvances.good _ good)
  | awaiting placed due => exact .awaiting (hplaces _ _ placed) (hadvances.due _ due)
  | acked placed good => exact .acked (hplaces _ _ placed) (hadvances.good _ good)
  | returned => exact .returned

theorem LinkSound.advance {link : Link}
    (h : LinkSound L spool view link) (hadvances : L.Advances L')
    (hplaces : KeepsPlaces spool view spool' view') : LinkSound L' spool' view' link where
  server := h.server.advance hadvances hplaces
  records r hr := hadvances.due r (h.records r hr)
  named m hm := hadvances.good _ (h.named m hm)

theorem LinkSound.popDown {server : ServerPhase} {message : Downward}
    {down : List Downward} {up : List Upward}
    (h : LinkSound L spool view ⟨server, message :: down, up⟩) :
    LinkSound L spool view ⟨server, down, up⟩ :=
  ⟨h.server, fun r hr => h.records r (mem_cons_of_mem _ hr), h.named⟩

theorem LinkSound.push {link : Link} {m : Upward} (h : LinkSound L spool view link)
    (hgood : L.Good m.seq) : LinkSound L spool view { link with up := link.up ++ [m] } where
  server := h.server
  records := h.records
  named l hl := by
    rcases mem_snoc.mp hl with hl | rfl
    · exact h.named l hl
    · exact hgood

theorem SessionSound.advance {session : Session}
    (h : SessionSound L session) (hadvances : L.Advances L') : SessionSound L' session :=
  ⟨hadvances.good _ h.state, fun state hsaved => hadvances.good _ (h.saved state hsaved)⟩

theorem PhaseSound.advance {phase : NetPhase} (h : PhaseSound L phase)
    (hadvances : L.Advances L') : PhaseSound L' phase := by
  cases phase with
  | offline | greeting | reading => exact trivial
  | posting => exact hadvances.due _ h
  | committing => exact hadvances.good _ h

end Advance

section Steps

variable {config : StorageConfig} {base : UInt64}
  {appended : List WireRecord} {view : SpoolView x} {s s' : Net} {spool : Spool}

theorem Sound.withSpool (h : Sound config base appended view s)
    {appended' : List WireRecord} {view' : SpoolView x}
    (hstock : Stocks config appended' spool view')
    (hadvances : (s.ledger base appended view).Advances (s.ledger base appended' view'))
    (hplaces : KeepsPlaces s.spool view spool view')
    (hconsumed : (s.ledger base appended' view').Good spool.consumed) :
    Sound config base appended' view' { s with spool } where
  stock := hstock
  consumed := hconsumed
  links link hlink := (h.links link hlink).advance hadvances hplaces
  session := h.session.advance hadvances
  phase := h.phase.advance hadvances

theorem Sound.withCollectors (h : Sound config base appended view s)
    {collectors : List Collector} (hgrew : Grew s.collectors collectors) :
    Sound config base appended view { s with collectors } := by
  have hadvances : (s.ledger base appended view).Advances
      (({ s with collectors } : Net).ledger base appended view) := Ledger.advances_collectors hgrew
  exact ⟨h.stock, hadvances.good _ h.consumed,
    fun link hlink => (h.links link hlink).advance hadvances fun _ _ hplaced => hplaced,
    h.session.advance hadvances, h.phase.advance hadvances⟩

theorem Sound.withLinks (h : Sound config base appended view s) {link : Link}
    (hlink : LinkSound (s.ledger base appended view) s.spool view link)
    {links : List Link} (hlinks : ∀ l ∈ links, l ∈ s.links ∨ l = link) :
    Sound config base appended view { s with links } where
  stock := h.stock
  consumed := h.consumed
  links l hl := by
    rcases hlinks l hl with hold | rfl
    · exact h.links l hold
    · exact hlink
  session := h.session
  phase := h.phase

theorem Sound.withLink (h : Sound config base appended view s) (i : Nat) {link : Link}
    (hlink : LinkSound (s.ledger base appended view) s.spool view link) :
    Sound config base appended view { s with links := s.links.set i link } :=
  h.withLinks hlink fun _ => mem_or_eq_of_mem_set

theorem Sound.withPhase (h : Sound config base appended view s) (phase : NetPhase)
    (hphase : PhaseSound (s.ledger base appended view) phase) :
    Sound config base appended view { s with phase } :=
  ⟨h.stock, h.consumed, h.links, h.session, hphase⟩

variable {session : Session}

theorem Sound.withSession (h : Sound config base appended view s)
    (hsession : SessionSound (s.ledger base appended view) session) :
    Sound config base appended view { s with session } :=
  ⟨h.stock, h.consumed, h.links, hsession, h.phase⟩

theorem Sound.link (h : Sound config base appended view s) {i : Nat}
    {link : Link} (hlink : s.links[i]? = some link) :
    LinkSound (s.ledger base appended view) s.spool view link :=
  h.links link (mem_of_getElem? hlink)

theorem Sound.append (h : Sound config base appended view s) {r : WireRecord}
    (hfits : config.Fits x (appended ++ [r])) (hbase : base < r.seq)
    (hnew : ∀ a ∈ appended, a.seq < r.seq) (hrun : s.spool.append x r = .ok () spool) :
    ∃ view' : SpoolView x, Sound config base (appended ++ [r]) view' { s with spool } := by
  obtain ⟨view', hstock, hsub, hplaces, hconsumed⟩ := h.stock.append hfits hrun
  have hadvances : (s.ledger base appended view).Advances (s.ledger base (appended ++ [r]) view') :=
    Ledger.advances_append hsub hbase hnew
  refine ⟨view', h.withSpool hstock hadvances hplaces ?_⟩
  rw [hconsumed]
  exact hadvances.good _ h.consumed

theorem Sound.flushPending (h : Sound config base appended view s) (hfits : config.Fits x appended)
    (hrun : s.spool.flushPending x = .ok () spool) : ∃ view' : SpoolView x,
      Sound config base appended view' { s with spool } := by
  obtain ⟨view', hstock, hsub, hplaces, hconsumed⟩ := h.stock.flushPending hfits hrun
  have hadvances : (s.ledger base appended view).Advances
      (s.ledger base appended view') := Ledger.advances_stored hsub
  refine ⟨view', h.withSpool hstock hadvances hplaces ?_⟩
  rw [hconsumed]
  exact hadvances.good _ h.consumed

theorem Sound.due (h : Sound config base appended view s)
    {n : UInt64} (hgood : (s.ledger base appended view).Good n)
    {r : WireRecord} (hr : r ∈ view.stored) (hbetween : ∀ q ∈ view.stored, q.seq < r.seq →
      q.seq ≤ n ∨ q.seq ≤ s.spool.consumed) : (s.ledger base appended view).Due r where
  appended := h.stock.stored.subset hr
  before q hq hlt := by
    rcases hbetween q hq hlt with hle | hle
    · exact hgood.posted q hq hle
    · exact h.consumed.posted q hq hle

theorem Sound.server (hx : x.RoundTrip)
    (h : Sound config base appended view s) {i : Nat} {link link' : Link}
    {e : DrainEvent} (hsorted : appended.Pairwise fun a b => a.seq < b.seq)
    (hfits : config.Fits x appended) (hlegible : s.spool.Legible x)
    (hsafe : ∀ seq, e = .consume seq → s.spool.ConsumeSafe x seq) (hlink : s.links[i]? = some link)
    (hstep : ServerStep x s.spool link e spool link') :
    (∃ view' : SpoolView x, Sound config base appended view'
        { s with spool, links := s.links.set i link' }) ∧ ∀ r, Spool.Removes x r s.spool spool →
        (∃ seq, e = .consume seq) → (s.ledger base appended view).Posted r := by
  have hsound := h.link hlink
  have hup : ∀ {message : Upward} {up : List Upward} {down : List Downward}
      {server server' : ServerPhase}, LinkSound (s.ledger base appended view) s.spool view
        ⟨server, down, message :: up⟩ →
      ServerSound (s.ledger base appended view) s.spool view server' →
      LinkSound (s.ledger base appended view) s.spool view ⟨server', down, up⟩ := by
    intro message up down server server' hsound hserver
    exact ⟨hserver, hsound.records, fun m hm => hsound.named m (mem_cons_of_mem _ hm)⟩
  cases hstep with
  | request fromSeq =>
    have hgood := hsound.named _ mem_cons_self
    refine ⟨⟨view, h.withLink i (hup hsound ?_)⟩, nofun⟩
    exact .polling (h.stock.placed_after fromSeq) hgood
  | idle hnext =>
    cases hsound.server with
    | polling placed good =>
      obtain ⟨hplaced, -⟩ := h.stock.next hx hsorted hlegible placed hnext
      exact ⟨⟨view, h.withLink i ⟨.polling hplaced good, hsound.records, hsound.named⟩⟩, nofun⟩
  | @send _ _ record down up hnext =>
    cases hsound.server with
    | polling placed good =>
      obtain ⟨hplaced, hfound⟩ := h.stock.next hx hsorted hlegible placed hnext
      obtain ⟨hr, hbetween⟩ := hfound record rfl
      have hdue := h.due good hr hbetween
      refine ⟨⟨view, h.withLink i ⟨.awaiting hplaced hdue, ?_, hsound.named⟩⟩, nofun⟩
      intro r hr
      rcases mem_snoc.mp hr with hr | hr
      · exact hsound.records r hr
      · cases hr
        exact hdue
  | nextFailed _ =>
    exact ⟨⟨view, h.withLink i ⟨.returned, hsound.records, hsound.named⟩⟩, nofun⟩
  | ack =>
    cases hsound.server with
    | awaiting placed _ =>
      have hgood := hsound.named _ mem_cons_self
      exact ⟨⟨view, h.withLink i (hup hsound (.acked placed hgood))⟩, nofun⟩
  | refuse _ => exact ⟨⟨view, h.withLink i (hup hsound .returned)⟩, nofun⟩
  | consume hconsume =>
    cases hsound.server with
    | @acked cursor seq placed good =>
      obtain ⟨view', hstock, hsub, hplaces, hconsumed, hremoves⟩ :=
        h.stock.consumeThrough hx hsorted hfits hlegible (hsafe _ rfl) hconsume
      have hadvances : (s.ledger base appended view).Advances
          (s.ledger base appended view') := Ledger.advances_stored hsub
      have hspool := h.withSpool hstock hadvances hplaces (by
        rcases hconsumed with hsame | hseq
        · rw [hsame]
          exact hadvances.good _ h.consumed
        · rw [hseq]
          exact hadvances.good _ good)
      have hmoved := hsound.advance hadvances hplaces
      refine ⟨⟨view', hspool.withLink i ⟨.polling (hplaces _ _ placed)
        (hadvances.good _ good), hmoved.records, hmoved.named⟩⟩, ?_⟩
      intro r hr _
      obtain ⟨hstored, hle⟩ := hremoves r hr
      exact good.posted r hstored hle

theorem SessionSound.greet {L : Ledger} {after : Session}
    {hello : ReplayHello} (h : SessionSound L session) (hzero : L.Good 0)
    (hstate : after.state = (session.greet hello).state) (hsaved : after.saved = session.saved
      ∨ after.saved = some (session.greet hello).state) : SessionSound L after := by
  have hgood : L.Good (session.greet hello).state.lastSeq := by
    rcases reconcileBridgeState_lastSeq session.state hello with heq | heq
    · rw [Session.greet, heq]
      exact hzero
    · rw [Session.greet, heq]
      exact h.state
  refine ⟨hstate ▸ hgood, ?_⟩
  intro state hstored
  rcases hsaved with hsame | hnew
  · exact h.saved state (hsame ▸ hstored)
  · rw [hnew] at hstored
    cases hstored
    exact hgood

theorem SessionSound.commit {L : Ledger} {after : Session}
    {seq : UInt64} (h : SessionSound L session) (hgood : L.Good seq)
    (hstate : after.state = { session.state with lastSeq := seq })
    (hsaved : after.saved = session.saved
      ∨ after.saved = some after.state) : SessionSound L after := by
  have hlast : L.Good after.state.lastSeq := by
    rw [hstate]
    exact hgood
  refine ⟨hlast, ?_⟩
  intro state hstored
  rcases hsaved with hsame | hnew
  · exact h.saved state (hsame ▸ hstored)
  · rw [hnew] at hstored
    cases hstored
    exact hlast

theorem SessionSound.restart {L : Ledger}
    (h : SessionSound L session) (hzero : L.Good 0) (absent : Bool) :
    SessionSound L (session.restart absent) := by
  obtain ⟨state, stateFile, saved, acks⟩ := session
  cases absent with
  | true =>
    cases stateFile with
    | true => exact ⟨hzero, nofun⟩
    | false => exact ⟨hzero, nofun⟩
  | false =>
    refine ⟨?_, h.saved⟩
    cases stateFile with
    | false => exact hzero
    | true =>
      cases saved with
      | none => exact hzero
      | some state => exact h.saved state rfl

def SafeStep (x : External) (s : Net) (e : DrainEvent) (s' : Net) : Prop :=
  NetStep x s e s' ∧ s.spool.Legible x ∧ ∀ seq, e = .consume seq → s.spool.ConsumeSafe x seq

theorem Sound.step (hx : x.RoundTrip) (h : Sound config base appended view s) {e : DrainEvent}
    (hsorted : (appended ++ suppliedBy [e]).Pairwise fun a b => a.seq < b.seq)
    (hbase : ∀ a ∈ appended ++ suppliedBy [e], base < a.seq)
    (hfits : config.Fits x (appended ++ suppliedBy [e])) (hstep : SafeStep x s e s') :
    (∃ view' : SpoolView x, Sound config base (appended ++ suppliedBy [e]) view' s')
      ∧ ∀ r, Spool.Removes x r s.spool s'.spool → (∃ seq, e = .consume seq) →
        (s.ledger base appended view).Posted r := by
  obtain ⟨hstep, hlegible, hsafe⟩ := hstep
  have hzero : (s.ledger base appended view).Good 0 := Ledger.good_of_le_base UInt64.zero_le
      (fun a ha => hbase a (mem_append_left _ ha)) h.stock.stored
  have hquiet : ∀ {t : Net}, e = .silent → Sound config base appended view t →
      (∃ view' : SpoolView x, Sound config base (appended ++ suppliedBy [e]) view' t)
      ∧ ∀ r, Spool.Removes x r s.spool t.spool → (∃ seq, e = .consume seq) →
        (s.ledger base appended view).Posted r := by
    intro t he ht
    subst he
    rw [show suppliedBy [.silent] = [] from rfl, append_nil]
    exact ⟨⟨view, ht⟩, nofun⟩
  cases hstep with
  | append record happend =>
    obtain ⟨-, -, hnew⟩ := pairwise_append.mp hsorted
    refine ⟨h.append hfits (hbase record ?_) ?_ happend, nofun⟩
    · exact mem_append_right _ (mem_singleton_self _)
    · exact fun a ha => hnew a ha record (mem_singleton_self _)
  | flushPending hflush =>
    rw [show suppliedBy [.silent] = [] from rfl, append_nil] at hfits ⊢
    exact ⟨h.flushPending hfits hflush, nofun⟩
  | server hlink hserver =>
    have hnone : suppliedBy [e] = [] := by cases hserver <;> rfl
    rw [hnone, append_nil] at hsorted hfits ⊢
    exact h.server hx hsorted hfits hlegible hsafe hlink hserver
  | connect _ _ =>
    apply hquiet rfl
    refine (h.withLinks ?_ fun _ => mem_snoc.mp).withPhase (.greeting _) trivial
    exact ⟨.greeted, fun r hr => (by cases mem_singleton.mp hr), fun _ => nofun⟩
  | @request i _ _ _ _ _ fault _ hlink hwrite =>
    apply hquiet rfl
    obtain ⟨hstate, -, hsaved⟩ := (Session.writeBridgeState_ends fault _).ok hwrite
    have hsession := h.session.greet hzero hstate hsaved
    have hlink' := (h.link hlink).popDown.push (m := .request _) hsession.state
    exact ((h.withSession hsession).withLink i hlink').withPhase (.reading i) trivial
  | requestFailed fault _ _ hwrite =>
    apply hquiet rfl
    have hsame := (Session.writeBridgeState_ends fault _).error hwrite
    have hsession := h.session.greet hzero (congrArg Session.state hsame)
      (Or.inl (by rw [hsame]; rfl))
    exact (h.withSession hsession).withPhase .offline trivial
  | @read i _ record _ _ _ hlink =>
    apply hquiet rfl
    have hsound := h.link hlink
    have hdue := hsound.records _ mem_cons_self
    exact (h.withLink i hsound.popDown).withPhase (.posting i record) hdue
  | @post i record _ answers hphase hpost =>
    apply hquiet rfl
    obtain ⟨hgrew, hall⟩ := (postFor_ends _ answers _).ok hpost
    have hdue := h.phase
    rw [hphase] at hdue
    have hgood := ((Ledger.advances_collectors hgrew).due _ hdue).good hall
      (pairwise_append.mp hsorted).1 h.stock.stored
    exact (h.withCollectors hgrew).withPhase (.committing i record) hgood
  | postFailed answers _ hpost =>
    apply hquiet rfl
    have hgrew := (postFor_ends _ answers _).error hpost
    exact (h.withCollectors hgrew).withPhase .offline trivial
  | @commit i record link session fault hphase hlink hcommit =>
    apply hquiet rfl
    obtain ⟨hstate, hsaved, hacks⟩ := (Session.commitRecord_ends _ fault _).ok hcommit
    have hgood := h.phase
    rw [hphase] at hgood
    have hsession := h.session.commit hgood hstate hsaved
    have hlink' := (h.link hlink).push (m := .ack _) hgood
    rw [hacks]
    exact ((h.withSession hsession).withLink i hlink').withPhase (.reading i) trivial
  | commitFailed fault hphase hcommit =>
    apply hquiet rfl
    obtain ⟨hstate, hsaved⟩ := (Session.commitRecord_ends _ fault _).error hcommit
    have hgood := h.phase
    rw [hphase] at hgood
    have hsession := h.session.commit hgood hstate hsaved
    exact (h.withSession hsession).withPhase .offline trivial
  | hangUp => exact hquiet rfl (h.withPhase .offline trivial)
  | restart absent =>
    apply hquiet rfl
    have hsession := h.session.restart hzero absent
    exact (h.withSession hsession).withPhase .offline trivial
  | cut hlink hdown hup =>
    apply hquiet rfl
    have hsound := h.link hlink
    exact h.withLink _ ⟨hsound.server, fun r hr => hsound.records r (hdown.subset hr),
      fun m hm => hsound.named m (hup.subset hm)⟩
  | serverGone hlink =>
    apply hquiet rfl
    have hsound := h.link hlink
    exact h.withLink _ ⟨.returned, hsound.records, hsound.named⟩

end Steps

theorem suppliedBy_append (events events' : List DrainEvent) :
    suppliedBy (events ++ events') = suppliedBy events ++ suppliedBy events' := filterMap_append

theorem StorageConfig.Fits.of_append {config : StorageConfig} {records records' : List WireRecord}
    (h : config.Fits x (records ++ records')) : config.Fits x records := by
  cases config with
  | buffer _ => exact trivial
  | file _ => exact Cuttable.mono h (prefix_append _ _).isInfix

theorem sound_of_run (hx : x.RoundTrip) {config : StorageConfig}
    {fresh : UInt64} {dir : Directory} {spool : Spool} (hvacant : config.Vacant dir)
    (hopen : Spool.openIn x config fresh dir = .ok spool)
    {stateFile : Bool} {collectors : List Collector} {events : List DrainEvent} {s : Net}
    (hrun : Run (SafeStep x) (.start spool stateFile collectors) events s)
    (hfits : config.Fits x (suppliedBy events))
    (hsorted : (suppliedBy events).Pairwise fun a b => a.seq < b.seq)
    (hbase : ∀ a ∈ suppliedBy events, spool.consumed < a.seq) : ∃ view : SpoolView x,
      Sound config spool.consumed (suppliedBy events) view s := by
  -- nothing above the old mark is owed at the start; each step keeps it so
  induction hrun with
  | nil =>
    obtain ⟨view, hstock, hstored⟩ := stocks_open hx hvacant hopen
    have hgood : ∀ n, n ≤ spool.consumed →
        ((Net.start spool stateFile collectors).ledger spool.consumed [] view).Good n :=
      fun n hn => Ledger.good_of_le_base hn (fun _ => nofun) hstock.stored
    exact ⟨view, hstock, hgood _ (UInt64.le_refl _), fun _ => nofun,
      ⟨hgood 0 UInt64.zero_le, fun _ => nofun⟩, trivial⟩
  | @snoc events _ _ e _ hstep ih =>
    rw [suppliedBy_append] at hfits hsorted hbase ⊢
    obtain ⟨view, hsound⟩ := ih hfits.of_append (pairwise_append.mp hsorted).1
      (fun a ha => hbase a (mem_append_left _ ha))
    exact (hsound.step hx hsorted hbase hfits hstep).1

/-- What draining removes has been accepted by every collector. -/
theorem drained_are_posted (x : External) (hx : x.RoundTrip)
    {config : StorageConfig} {fresh : UInt64} {dir : Directory}
    {spool : Spool} (hvacant : config.Vacant dir)
    (hopen : Spool.openIn x config fresh dir = .ok spool)
    (stateFile : Bool) (collectors : List Collector) {events : List DrainEvent} {s s' : Net}
    (hrun : Run (SafeStep x) (.start spool stateFile collectors) events s)
    {seq : UInt64} (hstep : SafeStep x s (.consume seq) s')
    (hfits : config.Fits x (suppliedBy events))
    (hsorted : (suppliedBy events).Pairwise fun a b => a.seq < b.seq)
    (habove : ∀ a ∈ suppliedBy events, spool.consumed < a.seq)
    {r : WireRecord} (hremoved : Spool.Removes x r s.spool s'.spool) :
    ∀ c ∈ s.collectors, WireRecord.post r ∈ c.accepted := by
  obtain ⟨view, hsound⟩ := sound_of_run hx hvacant hopen hrun hfits hsorted habove
  have hnone : suppliedBy events ++ suppliedBy [.consume seq] = suppliedBy events := append_nil _
  have hposted := (hsound.step hx (by rwa [hnone]) (by rwa [hnone]) (by rwa [hnone]) hstep).2
  exact hposted r hremoved ⟨seq, rfl⟩

theorem drains_first (spool : Spool) {r q : WireRecord}
    {spool₁ spool₂ spool₃ : Spool} {hello : ReplayHello}
    {cursor : ReplayCursor} (hfirst : spool.append x r = .ok () spool₁)
    (hflush : spool₁.flushPending x = .ok () spool₂) (hsecond : spool₂.append x q = .ok () spool₃)
    (hhello : spool₃.hello x = .ok hello)
    (hnext : spool₃.nextForCursor x (spool₃.replayCursorAfter 0) = .ok (some r) cursor)
    (hlegible : ∀ spool' ∈ [spool, spool₁, spool₂, spool₃], spool'.Legible x) :
    ∃ events s, Run (SafeStep x) (.start spool false [⟨[]⟩]) events s
      ∧ suppliedBy events = [r, q] ∧ s.spool = spool₃ ∧ s.collectors = [⟨[WireRecord.post r]⟩]
      ∧ ∀ spool', spool₃.consumeThrough x r.seq = .ok () spool' →
        ∃ s', NetStep x s (.consume r.seq) s' ∧ s'.spool = spool' := by
  have hsafe : ∀ {s s' : Net} {e : DrainEvent}, NetStep x s e s' →
      s.spool ∈ [spool, spool₁, spool₂, spool₃] → (∀ seq, e ≠ .consume seq) → SafeStep x s e s' :=
    fun hstep hmem he => ⟨hstep, hlegible _ hmem, fun _ h => absurd h (he _)⟩
  have hlast : spool₃ ∈ [spool, spool₁, spool₂, spool₃] := by simp
  have r₁ : Run (SafeStep x) (.start spool false [⟨[]⟩]) _ _ :=
    .snoc .nil (hsafe (.append r hfirst) (by simp [Net.start]) nofun)
  have r₂ := r₁.snoc (hsafe (.flushPending hflush) (by simp) nofun)
  have r₃ := r₂.snoc (hsafe (.append q hsecond) (by simp) nofun)
  have r₄ := r₃.snoc (hsafe (.connect rfl hhello) hlast nofun)
  have r₅ := r₄.snoc (hsafe (.request none rfl rfl rfl) hlast nofun)
  have r₆ := r₅.snoc (hsafe (.server (i := 0) rfl (.request _)) hlast nofun)
  have hzero : (reconcileBridgeState ⟨none, 0⟩ hello).lastSeq = 0 := by
    rcases reconcileBridgeState_lastSeq ⟨none, 0⟩ hello with h | h <;> exact h
  have r₇ := r₆.snoc (hsafe (.server (i := 0) rfl (.send (hzero ▸ hnext))) hlast nofun)
  have r₈ := r₇.snoc (hsafe (.read rfl rfl) hlast nofun)
  have r₉ := r₈.snoc (hsafe (.post [] rfl rfl) hlast nofun)
  have r₁₀ := r₉.snoc (hsafe (.commit none rfl rfl rfl) hlast nofun)
  have r₁₁ := r₁₀.snoc (hsafe (.server (i := 0) rfl .ack) hlast nofun)
  exact ⟨_, _, r₁₁, rfl, rfl, rfl,
    fun spool' hconsume => ⟨_, .server (i := 0) rfl (.consume hconsume), rfl⟩⟩

open Reference

def smallMetric (seq : UInt64) : WireRecord := { smallRecord seq with recordType := .metrics }

def roomyBuffer : BufferSpool := .new { limit := .messages 100, keepMessages := 0 } 7

def filledBuffer : BufferSpool := (roomyBuffer.append (smallRecord 1)).append (smallMetric 2)

theorem drained_are_posted_buffer : ∃ events s s', Run (SafeStep external)
        (.start (.buffer roomyBuffer) false [⟨[]⟩]) events s ∧ SafeStep external s (.consume 1) s'
      ∧ Spool.Removes external (smallRecord 1) s.spool s'.spool
      ∧ ∀ c ∈ s.collectors, WireRecord.post (smallRecord 1) ∈ c.accepted := by
  have hcalls : ((Spool.buffer filledBuffer).nextForCursor external).okAnd
      (.buffer (filledBuffer.replayCursorAfter 0)) (fun found _ =>
        decide (found = some (smallRecord 1))) = true := by
    decide +kernel
  obtain ⟨_, cursor, hnext, h⟩ := okAnd_eq_true.mp hcalls
  cases of_decide_eq_true h
  obtain ⟨events, s, hrun, hsupplied, hspool, -, hlast⟩ :=
    drains_first (.buffer roomyBuffer) (r := smallRecord 1)
      (q := smallMetric 2) rfl rfl rfl rfl hnext (by simp [Spool.Legible])
  obtain ⟨s', hstep, hspool'⟩ := hlast _ rfl
  have hlegible : s.spool.Legible external := hspool ▸ trivial
  have hsafe : s.spool.ConsumeSafe external 1 := hspool ▸ trivial
  have hsafe' : SafeStep external s (.consume 1) s' :=
    ⟨hstep, hlegible, fun seq hseq => by cases hseq; exact hsafe⟩
  have hremoves : Spool.Removes external (smallRecord 1) s.spool s'.spool := by
    rw [hspool, hspool']
    exact ⟨by decide +kernel, by decide +kernel⟩
  refine ⟨events, s, s', hrun, hsafe', hremoves, ?_⟩
  exact @drained_are_posted external external_roundTrip
    (.buffer ⟨.messages 100, 0⟩) 7 .empty _ trivial rfl _ _ _ _ _ hrun _
    hsafe' trivial (by rw [hsupplied]; decide) (by rw [hsupplied]; decide) _ hremoves

theorem drain_loses_unflushed :
    ∃ spool events s s', Spool.openIn external (.file smallSpool) 7 .empty = .ok spool
      ∧ Run (SafeStep external) (.start spool false [⟨[]⟩]) events s
      ∧ suppliedBy events = [smallRecord 1, smallMetric 2] ∧ NetStep external s (.consume 1) s'
      ∧ Spool.Removes external (smallMetric 2) s.spool s'.spool ∧ ¬ ∀ c ∈ s.collectors,
        WireRecord.post (smallMetric 2) ∈ c.accepted := by
  have hcalls : (FileSpool.openIn external smallSpool 7 .empty).okAnd (fun sp₀ =>
      (FileSpool.append external (smallRecord 1)).okAnd sp₀ fun _ spa =>
      (FileSpool.flushPending external).okAnd spa fun _ spb =>
      (FileSpool.append external (smallMetric 2)).okAnd spb fun _ sp =>
      ((Spool.file sp).hello external).okAnd fun _ =>
      (FileSpool.nextForCursor external sp).okAnd (FileSpool.replayCursorAfter 0) fun found _ =>
      (FileSpool.flushPending external).okAnd sp fun _ sp' =>
      (FileSpool.consumeThrough external 1).okAnd sp fun _ sp₁ =>
      (FileSpool.flushPending external).okAnd sp₁ fun _ sp₂ =>
      decide (found = some (smallRecord 1) ∧ smallMetric 2 ∈ sp'.readable external
        ∧ smallMetric 2 ∉ sp₂.readable external ∧ Legible external sp₀.dir sp₀.baseStem
        ∧ Legible external spa.dir spa.baseStem ∧ Legible external spb.dir spb.baseStem
        ∧ Legible external sp.dir sp.baseStem)) = true := by
    decide +kernel
  obtain ⟨sp₀, hopen, h⟩ := Except.okAnd_eq_true.mp hcalls
  obtain ⟨_, spa, hfirst, h⟩ := okAnd_eq_true.mp h
  obtain ⟨_, spb, hflush, h⟩ := okAnd_eq_true.mp h
  obtain ⟨_, sp, hsecond, h⟩ := okAnd_eq_true.mp h
  obtain ⟨_, hhello, h⟩ := Except.okAnd_eq_true.mp h
  obtain ⟨_, c, hnext, h⟩ := okAnd_eq_true.mp h
  obtain ⟨_, sp', hflush', h⟩ := okAnd_eq_true.mp h
  obtain ⟨_, sp₁, hconsume, h⟩ := okAnd_eq_true.mp h
  obtain ⟨_, sp₂, hflush₂, h⟩ := okAnd_eq_true.mp h
  obtain ⟨rfl, hstores, hgone, hl₀, hla, hlb, hl⟩ := of_decide_eq_true h
  obtain ⟨events, s, hrun, hsupplied, hspool, hcollectors, hlast⟩ :=
    drains_first (.file sp₀) (congrArg (Spool.mapResult Spool.file) hfirst)
      (congrArg (Spool.mapResult Spool.file) hflush)
      (congrArg (Spool.mapResult Spool.file) hsecond) hhello
      (congrArg (Spool.mapResult ReplayCursor.file) hnext)
      (by simpa [Spool.Legible] using ⟨hl₀, hla, hlb, hl⟩)
  obtain ⟨s', hstep, hspool'⟩ := hlast _ (congrArg (Spool.mapResult Spool.file) hconsume)
  refine ⟨.file sp₀, events, s, s', congrArg (Except.map Spool.file) hopen, hrun,
    hsupplied, hstep, ?_, ?_⟩
  · rw [hspool, hspool']
    exact ⟨⟨sp', hflush', hstores⟩, sp₂, hflush₂, hgone⟩
  · rw [hcollectors]
    decide

end Logjet
