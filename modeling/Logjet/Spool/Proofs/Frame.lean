/-
What the calls of a file spool leave alone: whether they return or fail, they
change segment files only (`Run.kept`).
-/
import Logjet.Spool.Proofs.Cleanup

namespace Logjet

open List

open EStateM (Ends)

variable {x : External}

def BufWriter.Aside (w w' : BufWriter) : Prop :=
  w'.inner.name = w.inner.name ∧ ∀ name, name ≠ w.inner.name →
    w'.inner.dir.get? name = w.inner.dir.get? name

theorem BufWriter.Aside.trans {w w₁ w₂ : BufWriter} (h : w.Aside w₁)
    (h' : w₁.Aside w₂) : w.Aside w₂ := by
  refine ⟨h'.1.trans h.1, ?_⟩
  intro name hname
  rw [h'.2 name (h.1 ▸ hname), h.2 name hname]

namespace BufWriter

variable {w : BufWriter}

theorem Aside.refl (w : BufWriter) : w.Aside w := ⟨rfl, fun _ _ => rfl⟩

theorem writeThrough_aside (w : BufWriter) (data : Bytes) :
    Ends (writeThrough data) w (fun _ w' => w.Aside w') fun _ w' => w.Aside w' := by
  rw [Ends, writeThrough_eq]
  by_cases hroom : ((w.inner.dir.get? w.inner.name).getD []).length + data.length ≤ File.maxLen
  · rw [if_pos hroom]
    refine ⟨rfl, ?_⟩
    intro name hname
    rw [Directory.get?_alter, if_neg hname]
  · rw [if_neg hroom]
    exact .refl w

theorem flush_aside (w : BufWriter) :
    Ends flush w (fun _ w' => w.Aside w') fun _ w' => w.Aside w' := by
  refine Ends.get (Ends.bind ((writeThrough_aside w w.buf).mono ?_ fun _ _ h => h))
  intro _ w₁ h
  exact h

theorem writeAll_aside (data : Bytes) (w : BufWriter) :
    Ends (writeAll data) w (fun _ w' => w.Aside w') fun _ w' => w.Aside w' := by
  refine Ends.get (Ends.ite (fun _ => .refl w) fun _ => ?_)
  have hroom : Ends (makeRoom data.length) w (fun _ w' => w.Aside w') fun _ w' => w.Aside w' :=
    Ends.get (Ends.ite (fun _ => flush_aside w) fun _ => .refl w)
  refine Ends.bind (hroom.mono ?_ fun _ _ h => h)
  intro _ w₁ h₁
  refine Ends.ite (fun _ => ?_) fun _ => h₁
  exact (writeThrough_aside w₁ data).mono (fun _ _ h => h₁.trans h) fun _ _ h => h₁.trans h

theorem keeps_aside : Sink.Keeps Aside := ⟨.refl, fun h h' => h.trans h', writeAll_aside⟩

theorem close_aside (w : BufWriter) {name : Text} (hname : name ≠ w.inner.name) :
    w.close.get? name = w.inner.dir.get? name := by
  rcases w.close_eq with h | ⟨h, -⟩
  · rw [h, Directory.get?_alter, if_neg hname]
  · rw [h]

end BufWriter

variable {stem : Text}

theorem isSome_of_mem_listSegments {d : Directory}
    {info : SegmentInfo} (h : info ∈ listSegments d stem) :
    (parseSegmentId info.path stem).isSome := by
  obtain ⟨name, -, hname⟩ := mem_filterMap.mp ((mem_insertionSort _).mp h)
  obtain ⟨id, hid, rfl⟩ := Option.map_eq_some_iff.mp hname
  rw [hid]
  rfl

theorem ne_of_isSome {name other : Text} (h : (parseSegmentId other stem).isSome)
    (hname : parseSegmentId name stem = none) : name ≠ other := by
  intro heq
  rw [← heq, hname] at h
  cases h

theorem isSome_segmentPath (stem : Text) (id : UInt64) :
    (parseSegmentId (segmentPath stem id) stem).isSome := by
  rw [parseSegmentId_segmentPath]
  rfl

namespace FileSpool

def Named (sp : FileSpool) : Prop :=
  (parseSegmentId sp.activeWriter.inner.inner.name sp.baseStem).isSome
    ∧ (parseSegmentId sp.activeSegmentPath sp.baseStem).isSome

structure Kept (sp sp' : FileSpool) : Prop where
  settings : sp'.settings = sp.settings
  consumed : sp'.consumedThroughSeq = sp.consumedThroughSeq
  agrees : Directory.Agrees sp.baseStem sp.dir sp'.dir
  named : sp'.Named

variable {sp sp' sp₁ : FileSpool} {α β : Type}

theorem Kept.refl (h : sp.Named) : sp.Kept sp := ⟨rfl, rfl, .refl _ _, h⟩

theorem Kept.trans (h : sp.Kept sp₁) (h' : sp₁.Kept sp') : sp.Kept sp' := by
  have hstem : sp₁.baseStem = sp.baseStem := congrArg Settings.baseStem h.settings
  refine ⟨h'.settings.trans h.settings, h'.consumed.trans h.consumed, ?_, h'.named⟩
  exact h.agrees.trans (hstem ▸ h'.agrees)

def Keeps (act : EStateM IoError FileSpool α) (sp : FileSpool) : Prop :=
  Ends act sp (fun _ sp' => sp.Kept sp') fun _ sp' => sp.Kept sp'

variable {act : EStateM IoError FileSpool α} {d : Directory} {segments : List SegmentInfo}
  {fresh : UInt64}

theorem Keeps.bind {f : α → EStateM IoError FileSpool β} (h : Keeps act sp)
    (hf : ∀ a sp₁, sp.Kept sp₁ → Keeps (f a) sp₁) : Keeps (act >>= f) sp := by
  refine Ends.bind (Ends.mono h ?_ fun _ _ h => h)
  intro a sp₁ h₁
  exact Ends.mono (hf a sp₁ h₁) (fun _ _ h => h₁.trans h) fun _ _ h => h₁.trans h

theorem Keeps.pure (h : sp.Named) (a : α) : Keeps (Pure.pure a) sp := .refl h

theorem Keeps.ite {c : Prop} [Decidable c] {act' : EStateM IoError FileSpool α}
    (ht : c → Keeps act sp)
    (hf : ¬ c → Keeps act' sp) : Keeps (if c then act else act') sp := Ends.ite ht hf

theorem Kept.writer (h : sp.Named) {w : LogjetWriter BufWriter}
    (hw : sp.activeWriter.inner.Aside w.inner) : sp.Kept { sp with activeWriter := w } := by
  refine ⟨rfl, rfl, fun name hseg => hw.2 name (ne_of_isSome h.1 hseg), ?_, h.2⟩
  rw [hw.1]
  exact h.1

theorem onWriter_keeps {act : EStateM Error (LogjetWriter BufWriter) α} (h : sp.Named)
    (hact : Ends act sp.activeWriter (fun _ w' => sp.activeWriter.inner.Aside w'.inner)
      fun _ w' => sp.activeWriter.inner.Aside w'.inner) : Keeps (onWriter act) sp := by
  unfold Keeps Ends onWriter at *
  cases hrun : act sp.activeWriter with
  | ok a w =>
    rw [hrun] at hact
    exact .writer h hact
  | error e w =>
    rw [hrun] at hact
    exact .writer h hact

theorem flushBlock_keeps (h : sp.Named) : Keeps (onWriter (LogjetWriter.flushBlock x)) sp :=
  onWriter_keeps h (LogjetWriter.flushBlock_keeps BufWriter.keeps_aside _)

theorem flushInner_keeps (h : sp.Named) : Keeps (onInner BufWriter.flush) sp := by
  have hflush := BufWriter.flush_aside sp.activeWriter.inner
  unfold Keeps Ends onInner at *
  cases hrun : BufWriter.flush sp.activeWriter.inner with
  | ok a inner =>
    rw [hrun] at hflush
    exact .writer h hflush
  | error e inner =>
    rw [hrun] at hflush
    exact .writer h hflush

theorem Kept.withDir (h : sp.Named)
    (hd : Directory.Agrees sp.baseStem sp.dir d) : sp.Kept (sp.withDir d) := ⟨rfl, rfl, hd, h⟩

theorem refreshActiveSize_keeps (h : sp.Named) : Keeps refreshActiveSize sp := by
  apply Ends.get
  cases sp.dir.len sp.activeSegmentPath with
  | error e => exact .refl h
  | ok len => exact ⟨rfl, rfl, .refl _ _, h⟩

theorem removeFile_keeps (h : sp.Named) {path : Text}
    (hpath : (parseSegmentId path sp.baseStem).isSome) : Keeps (removeFile path) sp := by
  apply Ends.get
  by_cases hhas : sp.dir.has path
  · rw [Directory.removeFile, if_pos hhas]
    apply Kept.withDir h
    intro name hname
    rw [Directory.get?_erase, if_neg (ne_of_isSome hpath hname)]
  · rw [Directory.removeFile, if_neg hhas]
    exact .refl h

theorem openNextSegment_keeps (h : sp.Named) : Keeps openNextSegment sp := by
  apply Ends.get
  cases nextSegmentId sp.activeSegmentId with
  | error e => exact .refl h
  | ok id =>
    refine ⟨rfl, rfl, ?_, isSome_segmentPath _ _, isSome_segmentPath _ _⟩
    intro name hname
    have hold := ne_of_isSome h.1 hname
    refine (BufWriter.close_aside (sp.withDir (sp.dir.create
      (segmentPath sp.baseStem id))).activeWriter.inner hold).trans ?_
    exact Directory.agrees_create sp.baseStem sp.dir id name hname

theorem retentionLoop_keeps (h : sp.Named) (excess : UInt64)
    (hsegs : ∀ s ∈ segments, (parseSegmentId s.path sp.baseStem).isSome) :
    Keeps (retentionLoop excess segments) sp := by
  induction segments generalizing sp excess with
  | nil => exact .pure h ()
  | cons segment segments ih =>
    apply Ends.get
    apply Keeps.ite
    · intro _
      exact .pure h ()
    · intro _
      apply Keeps.bind (removeFile_keeps h (hsegs segment (mem_cons_self ..)))
      intro _ sp₁ h₁
      apply ih h₁.named
      intro s hs
      rw [show sp₁.baseStem = sp.baseStem from
        congrArg Settings.baseStem h₁.settings]
      exact hsegs s (mem_cons_of_mem _ hs)

theorem enforceRetention_keeps (h : sp.Named) : Keeps enforceRetention sp := by
  apply Ends.get
  refine Keeps.ite (fun _ => .pure h ()) fun _ => ?_
  refine Keeps.ite (fun _ => .pure h ()) fun _ => ?_
  exact retentionLoop_keeps h _ fun s hs => isSome_of_mem_listSegments hs

theorem rotate_keeps (h : sp.Named) : Keeps (rotate x) sp := by
  apply Keeps.bind (flushBlock_keeps h)
  intro _ sp₁ h₁
  apply Keeps.bind (flushInner_keeps h₁.named)
  intro _ sp₂ h₂
  apply Keeps.bind (refreshActiveSize_keeps h₂.named)
  intro _ sp₃ h₃
  have hcut : Keeps (set (sp₃.withDir (sp₃.dir.setLen
      sp₃.activeWriter.inner.inner.name sp₃.activeSizeBytes))) sp₃ := by
    apply Kept.withDir h₃.named
    intro name hname
    rw [Directory.setLen, Directory.get?_alter, if_neg (ne_of_isSome h₃.named.1 hname)]
  apply Ends.get
  apply Keeps.bind hcut
  intro _ sp₄ h₄
  apply Keeps.bind (openNextSegment_keeps h₄.named)
  intro _ sp₅ h₅
  exact enforceRetention_keeps h₅.named

theorem append_keeps (h : sp.Named) (r : WireRecord) : Keeps (append x r) sp := by
  have hfull : Keeps (rotateIfFull x) sp :=
    Ends.get (Keeps.ite (fun _ => rotate_keeps h) fun _ => .pure h ())
  apply Keeps.bind hfull
  intro _ sp₁ h₁
  apply Keeps.bind (onWriter_keeps h₁.named (LogjetWriter.push_keeps BufWriter.keeps_aside r _))
  intro _ sp₂ h₂
  apply Keeps.bind (refreshActiveSize_keeps h₂.named)
  intro _ sp₃ h₃
  exact Ends.get (Keeps.ite (fun _ => rotate_keeps h₃.named) fun _ => .pure h₃.named ())

theorem flushPending_keeps (h : sp.Named) : Keeps (flushPending x) sp := by
  apply Keeps.bind (flushBlock_keeps h)
  intro _ sp₁ h₁
  apply Keeps.bind (flushInner_keeps h₁.named)
  intro _ sp₂ h₂
  exact refreshActiveSize_keeps h₂.named

theorem advanceEmptyActiveSegment_keeps (h : sp.Named) :
    Keeps (advanceEmptyActiveSegment x) sp := by
  apply Keeps.bind (flushBlock_keeps h)
  intro _ sp₁ h₁
  apply Ends.get
  apply Keeps.bind (openNextSegment_keeps h₁.named)
  intro _ sp₂ h₂
  refine Ends.get (Keeps.ite (fun _ => ?_) fun _ => .pure h₂.named ())
  apply removeFile_keeps h₂.named
  rw [show sp₂.baseStem = sp₁.baseStem from
    congrArg Settings.baseStem h₂.settings]
  exact h₁.named.2

theorem cleanupLoop_keeps (h : sp.Named)
    (hsegs : ∀ s ∈ segments, (parseSegmentId s.path sp.baseStem).isSome) :
    Keeps (cleanupLoop x segments) sp := by
  induction segments generalizing sp with
  | nil => exact .pure h ()
  | cons segment segments ih =>
    have hsegment : Keeps (cleanupSegment x segment) sp := by
      apply Ends.get
      cases segmentMaxSeq x sp.dir segment.path with
      | error e => exact .refl h
      | ok found =>
        cases found with
        | none => exact Kept.refl h
        | some maxSeq =>
          refine Keeps.ite (fun _ => .pure h ()) fun _ => ?_
          refine Keeps.ite (fun _ => advanceEmptyActiveSegment_keeps h) fun _ => ?_
          exact removeFile_keeps h (hsegs segment (mem_cons_self ..))
    apply Keeps.bind hsegment
    intro _ sp₁ h₁
    apply ih h₁.named
    intro s hs
    rw [show sp₁.baseStem = sp.baseStem from
      congrArg Settings.baseStem h₁.settings]
    exact hsegs s (mem_cons_of_mem _ hs)

theorem cleanupConsumedSegments_keeps (h : sp.Named) : Keeps (cleanupConsumedSegments x) sp :=
  Ends.get (cleanupLoop_keeps h fun _ hs => isSome_of_mem_listSegments hs)

structure Settled (config : FileConfig) (sp : FileSpool) : Prop where
  named : sp.Named
  settings : sp.settings = settingsOf config sp.streamId
  side : Sidecars sp.settings sp.consumedThroughSeq sp.dir

variable {config : FileConfig}

theorem Settled.baseStem (h : Settled config sp) : sp.baseStem = deriveBaseStem config.name :=
  congrArg Settings.baseStem h.settings

theorem Settled.statePath (h : Settled config sp) :
    sp.statePath = deriveBaseStem config.name ++ ".state".toList :=
  congrArg Settings.statePath h.settings

theorem Settled.kept (h : Settled config sp) (hkept : sp.Kept sp') : Settled config sp' := by
  refine ⟨hkept.named, ?_, ?_⟩
  · have hstream : sp'.streamId = sp.streamId := congrArg Settings.streamId hkept.settings
    rw [hkept.settings, h.settings, hstream]
  · rw [hkept.settings, hkept.consumed]
    exact h.side.congr hkept.agrees

theorem settled_openActive (h : openActive config fresh d = .ok sp) : Settled config sp := by
  obtain ⟨consumed, hconsumed, h⟩ := Except.bind_eq_ok_iff.mp h
  obtain ⟨⟨streamId, d'⟩, hstream, h⟩ := Except.bind_eq_ok_iff.mp h
  obtain ⟨⟨id, path, size⟩, hchoose, h⟩ := Except.bind_eq_ok_iff.mp h
  cases h
  have hpath : (parseSegmentId path (deriveBaseStem config.name)).isSome := by
    rcases chooseActive_eq_ok hchoose with ⟨info, hinfo, -, rfl⟩ | ⟨-, rfl⟩
    · exact isSome_of_mem_listSegments (mem_of_getLast? hinfo)
    · exact isSome_segmentPath _ _
  refine ⟨⟨hpath, hpath⟩, rfl, ?_⟩
  apply (sidecars_of_open hconsumed hstream).congr
  intro name hname
  exact (Directory.get?_create name).trans (if_neg (ne_of_isSome hpath hname))

theorem settled_openIn (h : openIn x config fresh d = .ok sp') : Settled config sp' := by
  obtain ⟨sp, hopen, hclean⟩ := openIn_eq_ok_iff.mp h
  have hsettled := settled_openActive hopen
  exact hsettled.kept ((cleanupConsumedSegments_keeps hsettled.named).ok hclean)

theorem Settled.setConsumed (h : Settled config sp) (seq : UInt64) :
    Settled config (FileSpool.withDir { sp with consumedThroughSeq := seq }
      (writeConsumedState sp.dir sp.statePath seq)) := by
  refine ⟨h.named, h.settings, h.side.statePath, readConsumedState_write _ _ _, ?_⟩
  refine Eq.trans ?_ h.side.streamId
  refine congrArg (Except.bind · (parseNumber "invalid stream id: "))
    (Directory.readToString_congr ?_)
  refine (Directory.get?_write _ _).trans (if_neg ?_)
  rw [show sp.statePath = _ from h.side.statePath]
  intro heq
  exact absurd (append_cancel_left heq) (by decide)

theorem Settled.consumeThrough (h : Settled config sp) {seq : UInt64}
    (hrun : FileSpool.consumeThrough x seq sp = .ok () sp') : Settled config sp' := by
  rw [FileSpool.consumeThrough, EStateM.get_bind] at hrun
  by_cases hle : seq ≤ sp.consumedThroughSeq
  · rw [if_pos hle] at hrun
    cases hrun
    exact h
  · rw [if_neg hle] at hrun
    obtain ⟨_, sp₁, hset, hclean⟩ := EStateM.bind_eq_ok_iff.mp hrun
    cases hset
    have hwritten := h.setConsumed seq
    exact hwritten.kept ((cleanupConsumedSegments_keeps hwritten.named).ok hclean)

theorem Run.settled {appended : List WireRecord}
    (h : Run x config appended sp) : Settled config sp := by
  induction h with
  | start _ h => exact settled_openIn h
  | append _ h ih => exact ih.kept ((append_keeps ih.named _).ok h)
  | flushPending _ h ih => exact ih.kept ((flushPending_keeps ih.named).ok h)
  | rotate _ h ih => exact ih.kept ((rotate_keeps ih.named).ok h)
  | consumeThrough _ _ h ih => exact ih.consumeThrough h
  | reopen _ _ h _ =>
    obtain ⟨fresh, flushed, -, hopen⟩ := h
    exact settled_openIn hopen

end FileSpool

end Logjet
