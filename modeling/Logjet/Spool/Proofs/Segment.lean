/-
The active segment: its records are in the file, in the `BufWriter` or in the
writer's buffer.
-/
import Logjet.Proofs.Cutting
import Logjet.Spool.Proofs.Disk

namespace Logjet

open List EStateM

variable {x : External}

structure ActiveSegment (x : External) where
  disk : List (Piece x)
  buffered : List (Piece x)
  pending : List OwnedRecord

def ActiveSegment.onDisk (a : ActiveSegment x) : List OwnedRecord := a.disk.flatMap Piece.records

def ActiveSegment.unflushed (a : ActiveSegment x) : List OwnedRecord :=
  a.buffered.flatMap Piece.records ++ a.pending

def ActiveSegment.records (a : ActiveSegment x) : List OwnedRecord := a.onDisk ++ a.unflushed

def Directory.Agrees (stem : Text) (d d' : Directory) : Prop :=
  ∀ name, parseSegmentId name stem = none → d'.get? name = d.get? name

theorem Directory.Agrees.refl (stem : Text) (d : Directory) : Directory.Agrees stem d d :=
  fun _ _ => rfl

theorem Directory.Agrees.trans {stem : Text} {d d₁ d₂ : Directory}
    (h : Directory.Agrees stem d d₁) (h' : Directory.Agrees stem d₁ d₂) :
    Directory.Agrees stem d d₂ := fun name hname => (h' name hname).trans (h name hname)

theorem Directory.agrees_create (stem : Text) (d : Directory) (id : UInt64) :
    Directory.Agrees stem d (d.create (segmentPath stem id)) := by
  intro name hname
  rw [Directory.get?_create, if_neg (ne_segmentPath hname id)]

namespace BufWriter

structure On (w : BufWriter) (stem : Text) (closed : List Segment)
    (id : UInt64) (disk buffered : List (Piece x)) : Prop where
  dir : w.inner.dir.Holds stem (closed ++ [⟨id, disk.flatMap Piece.bytes⟩])
  size : (disk.flatMap Piece.bytes).length ≤ File.maxLen
  name : w.inner.name = segmentPath stem id
  buf : w.buf = buffered.flatMap Piece.bytes

variable {w w' : BufWriter} {stem : Text} {closed : List Segment}
  {id : UInt64} {disk buffered : List (Piece x)}

theorem writeThrough_eq (w : BufWriter) (data : Bytes) : writeThrough data w
      = if ((w.inner.dir.get? w.inner.name).getD []).length + data.length ≤ File.maxLen then
          .ok () { w with inner := { w.inner with
            dir := w.inner.dir.alter w.inner.name (· ++ data) } }
        else .error ⟨.fileTooLarge, "File too large (os error 27)"⟩ w := by
  unfold writeThrough File.writeAll
  by_cases hroom : ((w.inner.dir.get? w.inner.name).getD []).length + data.length ≤ File.maxLen
  · simp only [if_pos hroom]
  · simp only [if_neg hroom]

theorem On.writeThrough (h : w.On stem closed id disk buffered) (pieces : List (Piece x))
    (hrun : writeThrough (pieces.flatMap Piece.bytes) w = .ok () w') :
    w'.On stem closed id (disk ++ pieces) buffered
      ∧ Directory.Agrees stem w.inner.dir w'.inner.dir := by
  rw [writeThrough_eq] at hrun
  by_cases hroom : ((w.inner.dir.get? w.inner.name).getD []).length
      + (pieces.flatMap Piece.bytes).length ≤ File.maxLen
  · rw [if_pos hroom] at hrun
    cases hrun
    have hget : w.inner.dir.get? (segmentPath stem id) = some (disk.flatMap Piece.bytes) :=
      h.dir.get (s := ⟨id, disk.flatMap Piece.bytes⟩) (by simp)
    rw [h.name, hget, Option.getD_some, ← length_append, ← flatMap_append] at hroom
    refine ⟨⟨?_, hroom, h.name, h.buf⟩, ?_⟩
    · rw [flatMap_append, h.name]
      exact h.dir.alter_at (· ++ pieces.flatMap Piece.bytes)
    · intro name hname
      rw [h.name, Directory.get?_alter, if_neg (ne_segmentPath hname id)]
  · rw [if_neg hroom] at hrun
    cases hrun

theorem On.flush (h : w.On stem closed id disk buffered) (hrun : flush w = .ok () w') :
    w'.On stem closed id (disk ++ buffered) ([] : List (Piece x))
      ∧ Directory.Agrees stem w.inner.dir w'.inner.dir := by
  rw [BufWriter.flush, get_bind, h.buf] at hrun
  obtain ⟨_, w₁, hthrough, hmodify⟩ := bind_eq_ok_iff.mp hrun
  obtain ⟨hon, hagrees⟩ := h.writeThrough buffered hthrough
  cases hmodify
  exact ⟨⟨hon.dir, hon.size, hon.name, rfl⟩, hagrees⟩

theorem On.settle (h : w.On stem closed id disk buffered) (hbuf : w.buf = []) :
    w.On stem closed id (disk ++ buffered) ([] : List (Piece x)) := by
  have hall : (disk ++ buffered).flatMap Piece.bytes = disk.flatMap Piece.bytes := by
    rw [flatMap_append, ← h.buf, hbuf, append_nil]
  refine ⟨?_, ?_, h.name, hbuf⟩
  · rw [hall]
    exact h.dir
  · rw [hall]
    exact h.size

theorem On.store (h : w.On stem closed id disk buffered) (p : Piece x)
    (hrun : store p.bytes w = .ok () w') : w'.On stem closed id disk (buffered ++ [p])
      ∧ w'.inner.dir = w.inner.dir := by
  cases hrun
  refine ⟨⟨h.dir, h.size, h.name, ?_⟩, rfl⟩
  rw [flatMap_append, ← h.buf, flatMap_singleton]

theorem On.makeRoom (h : w.On stem closed id disk buffered) {len : Nat}
    (hrun : makeRoom len w = .ok () w') : ∃ disk' buffered', disk' ++ buffered' = disk ++ buffered
      ∧ w'.On stem closed id disk' buffered' ∧ (capacity ≤ len → buffered' = [])
      ∧ Directory.Agrees stem w.inner.dir w'.inner.dir := by
  rw [BufWriter.makeRoom, get_bind] at hrun
  by_cases hfull : len > capacity - w.buf.length
  · rw [if_pos hfull] at hrun
    obtain ⟨hon, hagrees⟩ := h.flush hrun
    exact ⟨disk ++ buffered, [], append_nil _, hon, fun _ => rfl, hagrees⟩
  · rw [if_neg hfull] at hrun
    cases hrun
    by_cases hlen : capacity ≤ len
    · have hbuf : w.buf = [] := by
        apply length_eq_zero_iff.mp
        have hcap : 0 < capacity := by decide
        omega
      exact ⟨disk ++ buffered, [], append_nil _, h.settle hbuf, fun _ => rfl, .refl _ _⟩
    · exact ⟨disk, buffered, rfl, h, fun hle => absurd hle hlen, .refl _ _⟩

theorem On.writeAll (h : w.On stem closed id disk buffered) (p : Piece x)
    (hrun : writeAll p.bytes w = .ok () w') :
    ∃ disk' buffered', disk' ++ buffered' = disk ++ buffered ++ [p]
      ∧ w'.On stem closed id disk' buffered' ∧ Directory.Agrees stem w.inner.dir w'.inner.dir := by
  rw [BufWriter.writeAll, get_bind] at hrun
  by_cases hfits : p.bytes.length < capacity - w.buf.length
  · rw [if_pos hfits] at hrun
    obtain ⟨hon, hdir⟩ := h.store p hrun
    refine ⟨disk, buffered ++ [p], (append_assoc ..).symm, hon, ?_⟩
    rw [hdir]
    exact .refl _ _
  · rw [if_neg hfits] at hrun
    obtain ⟨_, w₁, hroom, hrun⟩ := bind_eq_ok_iff.mp hrun
    obtain ⟨disk₁, buffered₁, hsplit, hon₁, hempty, hagrees₁⟩ := h.makeRoom hroom
    by_cases hlarge : p.bytes.length ≥ capacity
    · rw [if_pos hlarge, ← flatMap_singleton Piece.bytes p] at hrun
      obtain ⟨hon, hagrees⟩ := hon₁.writeThrough [p] hrun
      rw [hempty hlarge, append_nil] at hsplit
      rw [hempty hlarge] at hon
      exact ⟨disk₁ ++ [p], [], by rw [hsplit, append_nil], hon, hagrees₁.trans hagrees⟩
    · rw [if_neg hlarge] at hrun
      obtain ⟨hon, hdir⟩ := hon₁.store p hrun
      refine ⟨disk₁, buffered₁ ++ [p], ?_, hon, ?_⟩
      · rw [← append_assoc, hsplit]
      · rw [hdir]
        exact hagrees₁

theorem close_eq (w : BufWriter) : w.close = w.inner.dir.alter w.inner.name (· ++ w.buf)
      ∨ (w.close = w.inner.dir ∧ ¬ ((w.inner.dir.get? w.inner.name).getD []).length + w.buf.length
          ≤ File.maxLen) := by
  unfold close BufWriter.flush
  rw [get_bind]
  have hthrough := writeThrough_eq w w.buf
  by_cases hroom : ((w.inner.dir.get? w.inner.name).getD []).length + w.buf.length ≤ File.maxLen
  · rw [if_pos hroom] at hthrough
    rw [bind_of_ok hthrough]
    exact Or.inl rfl
  · rw [if_neg hroom] at hthrough
    rw [bind_of_error hthrough]
    exact Or.inr ⟨rfl, hroom⟩

theorem On.writeChunks (h : w.On stem closed id disk buffered) (pieces : List (Piece x))
    (hrun : writeChunks (pieces.map Piece.bytes) w = .ok () w') :
    ∃ disk' buffered', disk' ++ buffered' = disk ++ buffered ++ pieces
      ∧ w'.On stem closed id disk' buffered' ∧ Directory.Agrees stem w.inner.dir w'.inner.dir := by
  induction pieces generalizing w disk buffered with
  | nil =>
    cases hrun
    exact ⟨disk, buffered, (append_nil _).symm, h, .refl _ _⟩
  | cons p pieces ih =>
    obtain ⟨_, w₁, hfirst, hrest⟩ := bind_eq_ok_iff.mp hrun
    obtain ⟨disk₁, buffered₁, hsplit₁, hon₁, hagrees₁⟩ := h.writeAll p hfirst
    obtain ⟨disk', buffered', hsplit, hon, hagrees⟩ := ih hon₁ hrest
    refine ⟨disk', buffered', ?_, hon, hagrees₁.trans hagrees⟩
    rw [hsplit, hsplit₁, append_assoc, singleton_append]

end BufWriter

theorem ActiveSegment.records_eq (a : ActiveSegment x) :
    a.records = (a.disk ++ a.buffered).flatMap Piece.records ++ a.pending := by
  rw [ActiveSegment.records, ActiveSegment.onDisk, ActiveSegment.unflushed,
    flatMap_append, append_assoc]

namespace LogjetWriter

structure Carries (w : LogjetWriter BufWriter) (stem : Text)
    (closed : List Segment) (id : UInt64) (a : ActiveSegment x) : Prop where
  sink : w.inner.On stem closed id a.disk a.buffered
  pending : ∃ base, w.Pending a.pending base ∧ w.Neat a.pending base
  readable : ∀ p ∈ a.disk ++ a.buffered, p.Readable .default

variable {w w' : LogjetWriter BufWriter} {stem : Text}
  {closed : List Segment} {id : UInt64} {a : ActiveSegment x}

theorem Carries.wrote (h : w.Carries stem closed id a)
    {blocks : List (Block x)} {records rest : List OwnedRecord}
    {base : BlockHeaderExt} (hcut : Cuttable x w.config records)
    (hwrote : w.Wrote w' blocks) (hp : w'.Pending rest base)
    (hneat : w'.Neat rest base) (hblocks : ∀ b ∈ blocks, b.Neat)
    (hsplit : records = blocks.flatMap Block.records ++ rest) :
    ∃ a' : ActiveSegment x, w'.Carries stem closed id a' ∧ a'.pending = rest
      ∧ a'.records = (a.disk ++ a.buffered).flatMap Piece.records ++ records
      ∧ Directory.Agrees stem w.inner.inner.dir w'.inner.inner.dir := by
  have hchunks : (blocks.flatMap Block.pieces).map Piece.bytes = blocks.flatMap Block.chunks := by
    rw [map_flatMap]
    simp only [Block.pieces_bytes]
  have hinner := hwrote.inner
  rw [← hchunks] at hinner
  obtain ⟨disk, buffered, hpieces, hon, hagrees⟩ :=
    h.sink.writeChunks (blocks.flatMap Block.pieces) hinner
  refine ⟨⟨disk, buffered, rest⟩, ⟨hon, ⟨base, hp, hneat⟩, ?_⟩, rfl, ?_, hagrees⟩
  · intro p hp
    simp only [hpieces] at hp
    rcases mem_append.mp hp with hp | hp
    · exact h.readable p hp
    · obtain ⟨b, hb, hp⟩ := mem_flatMap.mp hp
      refine Block.pieces_readable (hcut b (hblocks b hb) (hwrote.own b hb) ?_) p hp
      obtain ⟨l₁, l₂, hmem⟩ := append_of_mem hb
      rw [hsplit, hmem, flatMap_append, flatMap_cons]
      exact ⟨l₁.flatMap Block.records, l₂.flatMap Block.records ++ rest,
        by simp only [append_assoc]⟩
  · rw [ActiveSegment.records_eq, hpieces, flatMap_append, append_assoc, hsplit, flatMap_assoc]
    simp only [Block.pieces_records]

theorem Carries.push (h : w.Carries stem closed id a) {r : OwnedRecord}
    (hcut : Cuttable x w.config (a.pending ++ [r])) (hrun : push x r w = .ok () w') :
    ∃ a' : ActiveSegment x, w'.Carries stem closed id a'
      ∧ a'.records = a.records ++ [r] ∧ a'.pending <:+ a.pending ++ [r] ∧ w'.config = w.config
      ∧ Directory.Agrees stem w.inner.inner.dir w'.inner.inner.dir := by
  obtain ⟨base, hp, hneat⟩ := h.pending
  obtain ⟨blocks, rest, base', hwrote, hp', hsplit, hstay, -⟩ := (push_ends (x := x) hp r).ok hrun
  obtain ⟨hneat', hblocks⟩ := hstay hneat
  obtain ⟨a', hcarries, hpending, hrecords, hagrees⟩ :=
    h.wrote hcut hwrote hp' hneat' hblocks hsplit
  refine ⟨a', hcarries, ?_, ?_, hwrote.config, hagrees⟩
  · rw [hrecords, ActiveSegment.records_eq, append_assoc]
  · rw [hpending, hsplit]
    exact suffix_append _ _

theorem Carries.flushBlock (h : w.Carries stem closed id a) (hcut : Cuttable x w.config a.pending)
    (hrun : flushBlock x w = .ok () w') : ∃ a' : ActiveSegment x, w'.Carries stem closed id a'
      ∧ a'.pending = [] ∧ a'.records = a.records ∧ w'.config = w.config
      ∧ Directory.Agrees stem w.inner.inner.dir w'.inner.inner.dir := by
  obtain ⟨base, hp, hneat⟩ := h.pending
  rcases (flushBlock_ends (x := x) hp).ok hrun with
    ⟨hnil, rfl⟩ | ⟨hne, hempty, hunset, b, hb, hbase, hwrote⟩
  · exact ⟨a, h, hnil, rfl, rfl, .refl _ _⟩
  · have hcutNeat : b.Neat := hneat.block hp hne hb hbase (hwrote.own b (mem_singleton_self b))
    obtain ⟨a', hcarries, hpending, hrecords, hagrees⟩ := h.wrote hcut hwrote
      hempty ⟨fun _ => hunset, by simp, by simp⟩
      (fun b' hb' => mem_singleton.mp hb' ▸ hcutNeat) (by simp [hb])
    refine ⟨a', hcarries, hpending, ?_, hwrote.config, hagrees⟩
    rw [hrecords, ActiveSegment.records_eq]

theorem Carries.flushInner (h : w.Carries stem closed id a)
    {inner : BufWriter} (hrun : BufWriter.flush w.inner = .ok () inner) :
    LogjetWriter.Carries { w with inner } stem closed id
        (⟨a.disk ++ a.buffered, [], a.pending⟩ : ActiveSegment x)
      ∧ Directory.Agrees stem w.inner.inner.dir inner.inner.dir := by
  obtain ⟨hon, hagrees⟩ := h.sink.flush hrun
  obtain ⟨base, hp, hneat⟩ := h.pending
  refine ⟨⟨hon, ⟨base, ⟨hp.based, hp.below, hp.buf, hp.count⟩,
    ⟨hneat.unset, hneat.first, hneat.target⟩⟩, ?_⟩, hagrees⟩
  intro p hp
  rw [append_nil] at hp
  exact h.readable p hp

end LogjetWriter

end Logjet
