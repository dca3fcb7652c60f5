/-
How a written file is laid out, in blocks and the zeros that pad them, and
what the scan makes of it (`Passes`).
-/
import Mathlib.Algebra.Order.BigOperators.Group.List
import Logjet.Proofs.Scan
import Logjet.Proofs.Writer

namespace Logjet

open List hiding Vector

variable {x : External} {config : ReaderConfig} {data : Bytes}

structure Block.Readable (b : Block x) (config : ReaderConfig) : Prop where
  marker : config.syncMarker = b.config.syncMarker
  limits : WithinLimits config b.body

theorem padding_eq_replicate (config : WriterConfig) (len : Nat) :
    ∃ n, LogjetWriter.padding config len = List.replicate n 0 := by
  unfold LogjetWriter.padding
  split
  · simp only
    split
    · exact ⟨_, rfl⟩
    · exact ⟨0, rfl⟩
  · exact ⟨0, rfl⟩

variable {post pre : Bytes} {n q : Nat} {blocks : List (Block x)}

theorem not_markerAt_zeros {marker : Vector UInt8 8} (hm : Syncable marker)
    (hdata : data = pre ++ (List.replicate n 0 ++ post))
    (hlo : pre.length ≤ q) (hhi : q < pre.length + n) : ¬ MarkerAt marker data q := by
  intro hmark
  have hhead : data[q]? = some (marker.get 0) :=
    getElem?_of_occurrence (markerAt_iff_isPrefix.mp hmark) 0
  rw [hdata, getElem?_append_right hlo, getElem?_append_left (by simp; omega), getElem?_replicate,
    if_pos (by omega), Option.some.injEq] at hhead
  exact hm.nonzero hhead.symm

def headerField (field : BlockHeader → UInt32) (chunk : Bytes) : Nat :=
  match headerOf chunk with
  | some header => (field header).toNat
  | none => 0

theorem headerField_of_some {field : BlockHeader → UInt32} {chunk : Bytes}
    {header : BlockHeader} (h : headerOf chunk = some header) :
    headerField field chunk = (field header).toNat := by rw [headerField, h]

theorem headerOf_zeros (n : Nat) : headerOf (List.replicate n 0) = none := by
  have herr : ∃ err, BlockHeader.decode (slice (List.replicate n 0) 8 24) = .error err := by
    have hslice : slice (List.replicate n (0 : UInt8)) 8 24
        = List.replicate (min 24 (n - 8)) 0 := by simp [slice]
    rw [hslice]
    cases hdec : BlockHeader.decode (List.replicate (min 24 (n - 8)) (0 : UInt8)) with
    | error err => exact ⟨err, rfl⟩
    | ok header =>
      simp only [BlockHeader.decode, Except.bind_eq_ok_iff,
        Except.ensure_eq_ok_iff, length_replicate] at hdec
      obtain ⟨_, hlen, _, hversion, -⟩ := hdec
      have hzero : (List.replicate (min 24 (n - 8)) (0 : UInt8)).headD 0 = 0 := by
        cases min 24 (n - 8) <;> rfl
      rw [hzero] at hversion
      cases hversion
  obtain ⟨err, herr⟩ := herr
  rw [headerOf, herr]

structure Passes (x : External) (config : ReaderConfig) (data : Bytes)
    (p e : Nat) (records : List OwnedRecord) (weight : (BlockHeader → UInt32) → Nat) : Prop where
  records : scanRecords x config data p = records ++ scanRecords x config data e
  fields : ∀ field, scanTally x config data (frameWeight x config data field) p = weight field
        + scanTally x config data (frameWeight x config data field) e
  bad : scanTally x config data (badWeight x config data) p
    = scanTally x config data (badWeight x config data) e

theorem Passes.refl (p : Nat) : Passes x config data p p [] fun _ => 0 :=
  ⟨rfl, fun _ => (Nat.zero_add _).symm, rfl⟩

theorem Passes.trans {p e : Nat} {rs rs' : List OwnedRecord} {w w' : (BlockHeader → UInt32) → Nat}
    (h : Passes x config data p q rs w) (h' : Passes x config data q e rs' w') :
    Passes x config data p e (rs ++ rs') fun field => w field + w' field := by
  refine ⟨?_, ?_, ?_⟩
  · rw [h.records, h'.records, append_assoc]
  · intro field
    rw [h.fields, h'.fields, Nat.add_assoc]
  · rw [h.bad, h'.bad]

def Piece.Readable (config : ReaderConfig) : Piece x → Prop
  | .block b => b.Readable config
  | .zeros _ => True

def Piece.field (field : BlockHeader → UInt32) (p : Piece x) : Nat := headerField field p.bytes

theorem Block.passes (b : Block x) (hx : x.RoundTrip) (hb : b.Readable config) {pre post : Bytes}
    (hdata : data = pre ++ (b.body ++ post)) :
    Passes x config data pre.length (pre.length + b.body.length) b.records
      fun field => headerField field b.body := by
  obtain ⟨frame, hframe, hheader, hdecode, hend⟩ := b.readFrame_body hx hb.marker hb.limits hdata
  have hblock := b.blockAt_body hx hb.marker hb.limits hdata
  have hgood : badWeight x config data pre.length = 0 := if_neg fun h => by simp [hblock] at h
  refine ⟨?_, ?_, ?_⟩
  · rw [scanRecords_some hblock]
  · intro field
    rw [scanTally_some _ hblock, frameWeight_of_frame hframe, headerField_of_some hheader]
  · rw [scanTally_some _ hblock, hgood, Nat.zero_add]

theorem passes_zeros (hm : Syncable config.syncMarker)
    (hdata : data = pre ++ (List.replicate n 0 ++ post)) :
    Passes x config data pre.length (pre.length + n) [] fun _ => 0 := by
  have hinside : pre.length + n ≤ data.length := by
    rw [hdata]
    simp only [length_append, length_replicate]
    omega
  obtain ⟨hrec, hfields, hbad⟩ := scan_skip (x := x) (Nat.le_add_right pre.length n) hinside
    fun q h1 h2 => not_markerAt_zeros hm hdata h1 h2
  refine ⟨hrec, ?_, hbad⟩
  intro field
  rw [hfields, Nat.zero_add]

theorem Piece.passes (p : Piece x) (hx : x.RoundTrip)
    (hm : Syncable config.syncMarker) (hp : p.Readable config)
    {pre post : Bytes} (hdata : data = pre ++ (p.bytes ++ post)) :
    Passes x config data pre.length (pre.length + p.bytes.length) p.records
      fun field => p.field field := by
  cases p with
  | block b => exact b.passes hx hp hdata
  | zeros n =>
    have hfield : (fun field => Piece.field field (.zeros n : Piece x)) = fun _ => 0 := by
      funext field
      show headerField field (List.replicate n 0) = 0
      rw [headerField, headerOf_zeros]
    rw [hfield, show (Piece.bytes (.zeros n : Piece x)).length = n from
      length_replicate]
    exact passes_zeros hm hdata

theorem passes_pieces (hx : x.RoundTrip) (hm : Syncable config.syncMarker)
    {pieces : List (Piece x)} (hall : ∀ p ∈ pieces, p.Readable config) {pre post : Bytes}
    (hdata : data = pre ++ (pieces.flatMap Piece.bytes ++ post)) : Passes x config data pre.length
      (pre.length + (pieces.flatMap Piece.bytes).length) (pieces.flatMap Piece.records)
      fun field => (pieces.map (Piece.field field)).sum := by
  induction pieces generalizing pre with
  | nil => exact Passes.refl _
  | cons p pieces ih =>
    rw [flatMap_cons, append_assoc] at hdata
    have hfirst := p.passes hx hm (hall p (by simp)) hdata
    have hrest := ih (fun p' hp' => hall p' (by simp [hp'])) (hdata.trans (append_assoc ..).symm)
    rw [length_append] at hrest
    have hboth := hfirst.trans hrest
    rw [Nat.add_assoc, ← length_append] at hboth
    exact hboth

theorem scanRecords_pieces (hx : x.RoundTrip)
    (hm : Syncable config.syncMarker) {pieces : List (Piece x)}
    (hall : ∀ p ∈ pieces, p.Readable config) : scanRecords x config (pieces.flatMap Piece.bytes) 0
      = pieces.flatMap Piece.records := by
  have hpass := @passes_pieces x config (pieces.flatMap Piece.bytes) hx hm
    pieces hall [] [] (by simp)
  have hrec := hpass.records
  rw [length_nil, Nat.zero_add] at hrec
  rw [hrec, scanRecords, Greedy.records_end (Nat.le_refl _), append_nil]

theorem Block.pieces_bytes (b : Block x) : b.pieces.map Piece.bytes = b.chunks := by
  obtain ⟨n, hpad⟩ := padding_eq_replicate b.config b.body.length
  unfold Block.pieces Block.chunks
  rw [hpad]
  by_cases hn : n = 0
  · simp [hn, Piece.bytes]
  · simp [hn, Piece.bytes]

theorem Block.pieces_records (b : Block x) : b.pieces.flatMap Piece.records = b.records := by
  unfold Block.pieces
  by_cases h : (LogjetWriter.padding b.config b.body.length).isEmpty
  · simp [h, Piece.records]
  · simp [h, Piece.records]

theorem Block.pieces_field (b : Block x) (field : BlockHeader → UInt32) :
    (b.pieces.map (Piece.field field)).sum = headerField field b.body := by
  unfold Block.pieces
  by_cases h : (LogjetWriter.padding b.config b.body.length).isEmpty
  · simp [h, Piece.field, Piece.bytes]
  · simp [h, Piece.field, Piece.bytes, headerField, headerOf_zeros]

theorem Block.chunks_flatten (b : Block x) : b.chunks.flatten = b.bytes := by
  unfold Block.chunks Block.bytes
  by_cases h : LogjetWriter.padding b.config b.body.length = []
  · simp [h]
  · simp [h]

theorem Block.pieces_flatten (b : Block x) : b.pieces.flatMap Piece.bytes = b.bytes := by
  rw [flatMap_def, b.pieces_bytes, b.chunks_flatten]

theorem Block.pieces_readable {b : Block x} (hb : b.Readable config) :
    ∀ p ∈ b.pieces, p.Readable config := by
  intro p hp
  rcases mem_cons.mp hp with rfl | hp
  · exact hb
  · cases p with
    | zeros n => trivial
    | block b' => split at hp <;> simp at hp

theorem pieces_field (blocks : List (Block x)) (field : BlockHeader → UInt32) :
    ((blocks.flatMap Block.pieces).map (Piece.field field)).sum
      = (blocks.map fun b => headerField field b.body).sum := by
  induction blocks with
  | nil => rfl
  | cons b blocks ih =>
    rw [flatMap_cons, map_append, sum_append, b.pieces_field, ih, map_cons, sum_cons]

theorem scan_blocks (hx : x.RoundTrip) (hm : Syncable config.syncMarker)
    {blocks : List (Block x)} (hall : ∀ b ∈ blocks, b.Readable config) {pre post : Bytes}
    (hdata : data = pre ++ (blocks.flatMap Block.bytes ++ post)) : Passes x config data pre.length
      (pre.length + (blocks.flatMap Block.bytes).length) (blocks.flatMap Block.records)
      fun field => (blocks.map fun b => headerField field b.body).sum := by
  have hbytes : (blocks.flatMap Block.pieces).flatMap Piece.bytes = blocks.flatMap Block.bytes := by
    rw [flatMap_assoc]
    simp only [Block.pieces_flatten]
  have hrecords : (blocks.flatMap Block.pieces).flatMap Piece.records
      = blocks.flatMap Block.records := by
    rw [flatMap_assoc]
    simp only [Block.pieces_records]
  rw [← hbytes] at hdata ⊢
  have hpass := passes_pieces hx hm (fun p hp => by
    obtain ⟨b, hb, hp⟩ := mem_flatMap.mp hp
    exact Block.pieces_readable (hall b hb) p hp) hdata
  simp only [hrecords, pieces_field] at hpass
  exact hpass

theorem countersFit_blocks (hx : x.RoundTrip) (hm : Syncable config.syncMarker)
    (hall : ∀ b ∈ blocks, b.Readable config) (hlen : (blocks.flatMap Block.bytes).length < 2 ^ 64)
    (htotal : (blocks.map fun b => headerField BlockHeader.uncompressedLen b.body).sum < 2 ^ 64) :
    CountersFit x config (blocks.flatMap Block.bytes) := by
  obtain ⟨hrec, hfields, -⟩ := @scan_blocks x config
    (blocks.flatMap Block.bytes) hx hm blocks hall [] [] (by simp)
  rw [length_nil, Nat.zero_add] at hrec
  simp only [length_nil, Nat.zero_add] at hfields
  have hend : ∀ w, scanTally x config (blocks.flatMap Block.bytes) w
      (blocks.flatMap Block.bytes).length = 0 := fun w => Greedy.tally_end w (Nat.le_refl _)
  have hnil : scanRecords x config (blocks.flatMap Block.bytes)
      (blocks.flatMap Block.bytes).length = [] := Greedy.records_end (Nat.le_refl _)
  refine ⟨hlen, ?_, ?_, ?_⟩
  · rw [hrec, hnil, append_nil]
    have hfour : (blocks.flatMap Block.records).length ≤ (blocks.map fun b => headerField
            BlockHeader.uncompressedLen b.body).sum := by
      rw [length_flatMap]
      refine sum_le_sum fun b _ => ?_
      obtain ⟨header, hheader, -, hcount⟩ := b.headerOf_body
      rw [headerField_of_some hheader]
      omega
    omega
  · rw [hfields, hend]
    have hstored : (blocks.map fun b => headerField BlockHeader.compressedLen b.body).sum
        ≤ (blocks.flatMap Block.bytes).length := by
      rw [length_flatMap]
      refine sum_le_sum fun b _ => ?_
      obtain ⟨header, hheader, hstored, -⟩ := b.headerOf_body
      rw [headerField_of_some hheader, Block.bytes, length_append]
      omega
    omega
  · rw [hfields, hend]
    exact htotal

theorem yields_blocks (hx : x.RoundTrip) (hm : Syncable config.syncMarker)
    (hall : ∀ b ∈ blocks, b.Readable config)
    (hfit : CountersFit x config (blocks.flatMap Block.bytes)) : ∃ r', Yields x
        (LogjetReader.withConfig (blocks.flatMap Block.bytes) config)
        (blocks.flatMap Block.records) r' ∧ r'.stats.blocksBad = 0 := by
  obtain ⟨hrec, -, hbad⟩ := @scan_blocks x config
    (blocks.flatMap Block.bytes) hx hm blocks hall [] [] (by simp)
  rw [length_nil, Nat.zero_add] at hrec hbad
  have hnil : scanRecords x config (blocks.flatMap Block.bytes)
      (blocks.flatMap Block.bytes).length = [] := Greedy.records_end (Nat.le_refl _)
  have hend : scanTally x config (blocks.flatMap Block.bytes)
      (badWeight x config (blocks.flatMap Block.bytes)) (blocks.flatMap Block.bytes).length = 0 :=
    Greedy.tally_end _ (Nat.le_refl _)
  obtain ⟨r', hy, hcount⟩ := yields_scanRecords hm hfit
  rw [hrec, hnil, append_nil] at hy
  rw [hbad, hend] at hcount
  exact ⟨r', hy, UInt64.toNat_inj.mp hcount⟩

theorem Block.chunks_headers (b : Block x) :
    b.chunks.filterMap headerOf = (headerOf b.body).toList := by
  obtain ⟨n, hpad⟩ := padding_eq_replicate b.config b.body.length
  obtain ⟨header, hheader, -⟩ := b.headerOf_body
  unfold Block.chunks
  by_cases h : n = 0
  · simp [hpad, h, hheader]
  · simp [hpad, h, hheader, headerOf_zeros]

theorem chunks_flatten (blocks : List (Block x)) :
    (blocks.flatMap Block.chunks).flatten = blocks.flatMap Block.bytes := by
  induction blocks with
  | nil => rfl
  | cons b blocks ih => simp only [flatMap_cons, flatten_append, ih, Block.chunks_flatten]

theorem uncompressedTotal_chunks (blocks : List (Block x)) :
    uncompressedTotal (blocks.flatMap Block.chunks) = (blocks.map fun b => headerField
          BlockHeader.uncompressedLen b.body).sum := by
  induction blocks with
  | nil => rfl
  | cons b blocks ih =>
    unfold uncompressedTotal at ih ⊢
    obtain ⟨header, hheader, -⟩ := b.headerOf_body
    rw [flatMap_cons, filterMap_append, b.chunks_headers, hheader,
      map_append, sum_append, ih, map_cons, sum_cons, headerField_of_some hheader]
    simp

theorem yields_chunks (hx : x.RoundTrip) (hm : Syncable config.syncMarker)
    (hall : ∀ b ∈ blocks, b.Readable config)
    (hlength : (blocks.flatMap Block.chunks).flatten.length < 2 ^ 64)
    (htotal : uncompressedTotal (blocks.flatMap Block.chunks) < 2 ^ 64) :
    ∃ r', Yields x (LogjetReader.withConfig (blocks.flatMap Block.chunks).flatten config)
        (blocks.flatMap Block.records) r' ∧ r'.stats.blocksBad = 0 := by
  rw [uncompressedTotal_chunks] at htotal
  rw [chunks_flatten] at hlength ⊢
  exact yields_blocks hx hm hall (countersFit_blocks hx hm hall hlength htotal)

end Logjet
