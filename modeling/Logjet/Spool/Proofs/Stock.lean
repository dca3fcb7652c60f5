/-
What both kinds of spool do for a server that drains them (`SpoolView`,
`Placed`).
-/
import Logjet.Spool
import Logjet.Spool.Proofs.Buffer
import Logjet.Spool.Proofs.Consume
import Logjet.Spool.Proofs.Refines

namespace Logjet

open List Ascent

variable {x : External}

inductive SpoolView (x : External)
  | buffer (records : List WireRecord)
  | file (log : SegmentLog x)

def SpoolView.stored : SpoolView x → List WireRecord
  | .buffer records => records
  | .file log => log.stored

def StorageConfig.Fits (x : External) (records : List WireRecord) : StorageConfig → Prop
  | .buffer _ => True
  | .file config => FileSpool.Fits x config records

def StorageConfig.Vacant (dir : Directory) : StorageConfig → Prop
  | .buffer _ => True
  | .file config => listSegments dir (deriveBaseStem config.name) = []

namespace Spool

def Legible (x : External) : Spool → Prop
  | .buffer _ => True
  | .file sp => Logjet.Legible x sp.dir sp.baseStem

def consumed : Spool → UInt64
  | .buffer _ => 0
  | .file sp => sp.consumedThroughSeq

def ConsumeSafe (x : External) (seq : UInt64) : Spool → Prop
  | .buffer _ => True
  | .file sp => FileSpool.ConsumeSafe x sp seq

def Removes (x : External) (r : WireRecord) : Spool → Spool → Prop
  | .buffer sp, .buffer sp' => r ∈ sp.records ∧ r ∉ sp'.records
  | .file sp, .file sp' => sp.Stores x r ∧ ∃ flushed, FileSpool.flushPending x sp' = .ok () flushed
        ∧ r ∉ flushed.readable x
  | _, _ => False

end Spool

inductive Stocks (config : StorageConfig) (appended : List WireRecord) : Spool → SpoolView x → Prop
  | buffer {sp : BufferSpool} (hsub : sp.records.Sublist appended) :
      Stocks config appended (.buffer sp) (.buffer sp.records)
  | file {sp : FileSpool} {log : SegmentLog x} {c : FileConfig} (hconfig : config = .file c)
      (htracks : FileSpool.Tracks c appended sp log) : Stocks config appended (.file sp) (.file log)

inductive Placed (n : UInt64) : Spool → SpoolView x → ReplayCursor → Prop
  | buffer {sp : BufferSpool} {records : List WireRecord}
      {c : BufferReplayCursor} (h : c.lastSeq = n) :
      Placed n (.buffer sp) (.buffer records) (.buffer c)
  | file {sp : FileSpool} {log : SegmentLog x} {c : FileReplayCursor}
      (h : FileSpool.Follows sp log c n) : Placed n (.file sp) (.file log) (.file c)

def KeepsPlaces (spool : Spool) (view : SpoolView x) (spool' : Spool)
    (view' : SpoolView x) : Prop :=
  ∀ n cursor, Placed n spool view cursor → Placed n spool' view' cursor

section Calls

variable {config : StorageConfig} {appended : List WireRecord}
  {spool spool' : Spool} {view : SpoolView x}

theorem Stocks.stored (h : Stocks config appended spool view) : view.stored.Sublist appended := by
  cases h with
  | buffer hsub => exact hsub
  | file _ htracks => exact htracks.stored

theorem mapResult_eq_ok {α σ τ : Type} {f : σ → τ}
    {result : EStateM.Result IoError σ α} {a : α} {t : τ} (h : Spool.mapResult f result = .ok a t) :
    ∃ s, result = .ok a s ∧ t = f s := by
  cases result with
  | ok b s =>
    cases h
    exact ⟨s, rfl, rfl⟩
  | error err s => cases h

theorem stocks_open (hx : x.RoundTrip) {fresh : UInt64} {dir : Directory}
    (hvacant : config.Vacant dir) (hopen : Spool.openIn x config fresh dir = .ok spool) :
    ∃ view : SpoolView x, Stocks config [] spool view ∧ view.stored = [] := by
  cases config with
  | buffer c =>
    cases hopen
    exact ⟨_, .buffer (List.Sublist.refl _), rfl⟩
  | file c =>
    cases hfile : FileSpool.openIn x c fresh dir with
    | error err =>
      rw [Spool.openIn, hfile] at hopen
      cases hopen
    | ok sp =>
      rw [Spool.openIn, hfile] at hopen
      cases hopen
      exact ⟨_, .file rfl (FileSpool.tracks_start hx hvacant hfile), rfl⟩

theorem Stocks.placed_after (h : Stocks config appended spool view)
    (n : UInt64) : Placed n spool view (spool.replayCursorAfter n) := by
  cases h with
  | buffer _ => exact .buffer rfl
  | file _ _ => exact .file ⟨rfl, UInt64.zero_le, fun _ _ hlt => absurd hlt UInt64.not_lt_zero⟩

theorem keepsPlaces_buffer {sp sp' : BufferSpool} {records records' : List WireRecord} :
    KeepsPlaces (x := x) (.buffer sp) (.buffer records) (.buffer sp') (.buffer records') := by
  intro n cursor hplaced
  cases hplaced with
  | buffer h => exact .buffer h

theorem keepsPlaces_grew {sp sp' : FileSpool} {log log' : SegmentLog x}
    {new : List WireRecord} (hgrew : FileSpool.Grew sp log sp' log' new) :
    KeepsPlaces (.file sp) (.file log) (.file sp') (.file log')
      ∧ log'.stored.Sublist (log.stored ++ new) := by
  constructor
  · intro n cursor hplaced
    cases hplaced with
    | file h => exact .file (h.grew hgrew)
  · obtain ⟨dropped, hstored, -⟩ := hgrew.stored
    rw [← hstored]
    exact sublist_append_right _ _

theorem Stocks.append (h : Stocks config appended spool view)
    {r : WireRecord} (hfits : config.Fits x (appended ++ [r]))
    (hrun : spool.append x r = .ok () spool') :
    ∃ view', Stocks config (appended ++ [r]) spool' view'
      ∧ view'.stored.Sublist (view.stored ++ [r]) ∧ KeepsPlaces spool view spool' view'
      ∧ spool'.consumed = spool.consumed := by
  cases h with
  | @buffer sp hsub =>
    cases hrun
    have happend := sp.append_sublist r
    exact ⟨_, .buffer (happend.trans (hsub.append_right _)), happend, keepsPlaces_buffer, rfl⟩
  | file hconfig htracks =>
    subst hconfig
    obtain ⟨sp', hfile, rfl⟩ := mapResult_eq_ok hrun
    obtain ⟨log', hgrew⟩ := htracks.append hfits hfile
    obtain ⟨hplaces, hstored⟩ := keepsPlaces_grew hgrew
    exact ⟨_, .file rfl (htracks.grew hgrew), hstored, hplaces, hgrew.consumed⟩

theorem Stocks.flushPending (h : Stocks config appended spool view) (hfits : config.Fits x appended)
    (hrun : spool.flushPending x = .ok () spool') : ∃ view', Stocks config appended spool' view'
      ∧ view'.stored.Sublist view.stored ∧ KeepsPlaces spool view spool' view'
      ∧ spool'.consumed = spool.consumed := by
  cases h with
  | buffer hsub =>
    cases hrun
    exact ⟨_, .buffer hsub, List.Sublist.refl _, fun _ _ h => h, rfl⟩
  | file hconfig htracks =>
    subst hconfig
    obtain ⟨sp', hfile, rfl⟩ := mapResult_eq_ok hrun
    obtain ⟨disk, -, hgrew, -⟩ := htracks.flushPending hfits hfile
    obtain ⟨hplaces, hstored⟩ := keepsPlaces_grew hgrew
    rw [append_nil] at hstored
    exact ⟨_, .file rfl (htracks.grew_nil hgrew), hstored, hplaces, hgrew.consumed⟩

theorem mem_before_of_lt {before after : List WireRecord} {r q : WireRecord}
    (hsorted : (before ++ r :: after).Pairwise fun a b => a.seq < b.seq)
    (hq : q ∈ before ++ r :: after) (hlt : q.seq < r.seq) : q ∈ before := by
  rcases mem_append.mp hq with hq | hq
  · exact hq
  · rcases mem_cons.mp hq with rfl | hq
    · exact absurd hlt (UInt64.lt_irrefl _)
    · have hgt := rel_of_pairwise_cons (pairwise_append.mp hsorted).2.1 hq
      exact absurd hlt (UInt64.not_lt.mpr (UInt64.le_of_lt hgt))

theorem Stocks.next (hx : x.RoundTrip) (h : Stocks config appended spool view)
    (hsorted : appended.Pairwise fun a b => a.seq < b.seq)
    (hlegible : spool.Legible x) {n : UInt64} {cursor cursor' : ReplayCursor}
    (hplaced : Placed n spool view cursor) {found : Option WireRecord}
    (hnext : spool.nextForCursor x cursor = .ok found cursor') :
    Placed ((found.map OwnedRecord.seq).getD n) spool view cursor'
      ∧ ∀ r, found = some r → r ∈ view.stored ∧ ∀ q ∈ view.stored, q.seq < r.seq →
          q.seq ≤ n ∨ q.seq ≤ spool.consumed := by
  cases h with
  | @buffer sp hsub =>
    cases hplaced with
    | @buffer _ _ c hlast =>
      subst hlast
      have hrecords := hsorted.sublist hsub
      rcases BufferSpool.nextForCursor_spec (BufferSpool.behind_of_aligned hrecords) with ⟨hnone, -⟩
        | ⟨before, r, after, hsplit, hbefore, habove, hsome⟩
      · rw [Spool.nextForCursor, hnone] at hnext
        cases hnext
        exact ⟨.buffer rfl, fun _ hfound => nomatch hfound⟩
      · rw [Spool.nextForCursor, hsome] at hnext
        cases hnext
        refine ⟨.buffer rfl, ?_⟩
        intro r' hr
        cases hr
        rw [hsplit] at hrecords ⊢
        refine ⟨mem_append_right _ mem_cons_self, ?_⟩
        intro q hq hlt
        exact Or.inl (hbefore q (mem_before_of_lt hrecords hq hlt))
  | @file sp log _ hconfig htracks =>
    cases hplaced with
    | file hfollows =>
      obtain ⟨found', c', hfile, hfound, hfollows'⟩ := hfollows.next hx htracks.shows hlegible
      rw [Spool.nextForCursor, hfile] at hnext
      cases hnext
      refine ⟨.file hfollows', ?_⟩
      intro r hr
      rw [hr] at hfound
      obtain ⟨-, before, after, hsplit, hbefore⟩ := find?_eq_some_iff_append.mp hfound.symm
      have hstored : log.stored = before ++ r :: (after ++ log.active.unflushed) := by
        rw [SegmentLog.stored, ActiveSegment.records, ← append_assoc,
          ← SegmentLog.readable, hsplit, append_assoc, cons_append]
      have hrecords := hsorted.sublist htracks.stored
      rw [hstored] at hrecords
      simp only [SpoolView.stored]
      rw [hstored]
      refine ⟨mem_append_right _ mem_cons_self, ?_⟩
      intro q hq hlt
      have hnot := hbefore q (mem_before_of_lt hrecords hq hlt)
      simp only [Bool.not_eq_true', decide_eq_false_iff_not,
        max_lt_iff_seq, not_and_or, UInt64.not_lt] at hnot
      exact hnot

theorem Stocks.consumeThrough (hx : x.RoundTrip) (h : Stocks config appended spool view)
    (hsorted : appended.Pairwise fun a b => a.seq < b.seq)
    (hfits : config.Fits x appended) (hlegible : spool.Legible x)
    {seq : UInt64} (hsafe : spool.ConsumeSafe x seq)
    (hrun : spool.consumeThrough x seq = .ok () spool') :
    ∃ view', Stocks config appended spool' view' ∧ view'.stored.Sublist view.stored
      ∧ KeepsPlaces spool view spool' view'
      ∧ (spool'.consumed = spool.consumed ∨ spool'.consumed = seq)
      ∧ ∀ r, Spool.Removes x r spool spool' → r ∈ view.stored ∧ r.seq ≤ seq := by
  cases h with
  | @buffer sp hsub =>
    cases hrun
    have hshrinks := sp.consumeThrough_sublist seq
    refine ⟨_, .buffer (hshrinks.trans hsub), hshrinks, keepsPlaces_buffer, Or.inl rfl, ?_⟩
    intro r ⟨hr, hgone⟩
    refine ⟨hr, ?_⟩
    rw [← takeWhile_append_dropWhile (p := fun r => r.seq ≤ seq)
      (l := sp.records), mem_append] at hr
    rcases hr with hr | hr
    · have hle := mem_takeWhile_imp hr
      exact of_decide_eq_true hle
    · exact absurd hr hgone
  | @file sp log c hconfig htracks =>
    subst hconfig
    obtain ⟨sp', hfile, rfl⟩ := mapResult_eq_ok hrun
    have hstored := hsorted.sublist htracks.stored
    have hkept := fun r hr => htracks.survives hx (r := r) hstored hfits hlegible hsafe hr
    have hgone : ∀ {log' : SegmentLog x} {r : WireRecord}, FileSpool.Tracks c appended sp' log' →
        Spool.Removes x r (.file sp) (.file sp') → r ∉ log'.stored := by
      intro log' r htracks' ⟨_, flushed, hflush, hunread⟩ hr
      obtain ⟨disk, hdisk, hgrew, -⟩ := htracks'.flushPending hfits hflush
      rw [hgrew.shows.readable_eq hx, SegmentLog.readable, ActiveSegment.onDisk, hdisk] at hunread
      exact hunread hr
    rcases htracks.shows.consumeThrough hx (htracks.cuttable hfits) hlegible hfile with
      ⟨hle, rfl⟩ | ⟨hlt, hshows, hsettings, hconsumed, hid⟩
    · refine ⟨_, .file rfl htracks, List.Sublist.refl _, fun _ _ h => h, Or.inl rfl, ?_⟩
      intro r hremoves
      have hr := htracks.mem_stored hx hfits hremoves.1
      exact absurd hr (hgone htracks hremoves)
    · have hnot := UInt64.not_le.mpr hlt
      have htracks' := htracks.cleanup hshows hsettings
      refine ⟨_, .file rfl htracks', log.cleanup_stored_sublist seq, ?_, Or.inr hconsumed, ?_⟩
      · intro n cursor hplaced
        cases hplaced with
        | file hfollows =>
          refine .file (hfollows.cleanup ?_ hid)
          rw [hconsumed]
          exact UInt64.le_of_lt hlt
      · intro r hremoves
        refine ⟨htracks.mem_stored hx hfits hremoves.1, ?_⟩
        by_contra habove
        have hr := hkept r hremoves.1 (UInt64.not_le.mp habove)
        rw [if_neg hnot] at hr
        exact hgone htracks' hremoves hr

end Calls

end Logjet
