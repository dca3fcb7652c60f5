/-
One block there and back: what the writer lays out, the reader parses, layer
by layer: records, payloads, framing (`framed_assembleBlock`).
-/
import Logjet.Proofs.Varint

namespace Logjet

open List hiding Vector
open LittleEndian Except UInt64

theorem checkedAdd_sub {field : String} {base v : UInt64}
    (h : base ≤ v) : checkedAdd field base (v - base).toNat = .ok v := by
  have hsub : (v - base).toNat = v.toNat - base.toNat := UInt64.toNat_sub_of_le _ _ h
  have hle := UInt64.le_iff_toNat_le.mp h
  have hlt := v.toNat_lt
  obtain ⟨s, hs, hval⟩ := @checkedAdd_ok field base (v - base).toNat (by omega)
  rw [hs, show s = v from UInt64.toNat_inj.mp (by omega)]

variable {base : BlockHeaderExt} {total n p e : Nat} {records : List OwnedRecord}
  {data b post pre : Bytes} {config : ReaderConfig} {frame : Frame}

theorem parseRecord_encode {r : OwnedRecord} {rest : Bytes} (hbase : base.Below r)
    (htotal : total < 2 ^ 64) (hlen : r.payload.length + rest.length ≤ total) :
    parseRecord base total (r.encode base ++ rest) = .ok (r, rest) := by
  have hpayload : (UInt64.ofNat r.payload.length).toNat = r.payload.length := by
    rw [toNat_ofNat']
    omega
  simp only [OwnedRecord.encode, encodeRecord, append_assoc,
    cons_append, nil_append, parseRecord, RecordType.fromU8_toU8,
    ok_bind, decodeVarint_encode, hpayload, length_append]
  rw [ensure_true (by omega), ok_bind, ensure_true (by omega), ok_bind,
    checkedAdd_sub hbase.1, ok_bind, checkedAdd_sub hbase.2, ok_bind, take_left, drop_left]
  rfl

theorem parseRecordsLoop_encode (hbase : ∀ r ∈ records, base.Below r) (htotal : total < 2 ^ 64)
    (hlen : (encodeRecords base records).length ≤ total) :
    parseRecordsLoop base total records.length (encodeRecords base records) = .ok records := by
  induction records with
  | nil => rfl
  | cons r records ih =>
    rw [encodeRecords, flatMap_cons] at hlen ⊢
    rw [← encodeRecords] at hlen ⊢
    have hrec : r.payload.length ≤ (r.encode base).length := by
      simp only [OwnedRecord.encode, encodeRecord, length_append]
      omega
    rw [length_append] at hlen
    rw [length_cons, parseRecordsLoop,
      parseRecord_encode (hbase r (by simp)) htotal (by omega), ok_bind]
    simp only
    rw [ih (fun r hr => hbase r (by simp [hr])) (by omega)]
    rfl

theorem OwnedRecord.encode_length (base : BlockHeaderExt) (r : OwnedRecord) :
    4 + r.payload.length ≤ (r.encode base).length := by
  have h₁ := encodeVarint_length_pos (r.seq - base.baseSeq)
  have h₂ := encodeVarint_length_pos (r.tsUnixNs - base.baseTsUnixNs)
  have h₃ := encodeVarint_length_pos (UInt64.ofNat r.payload.length)
  simp only [OwnedRecord.encode, encodeRecord, length_append, length_singleton]
  omega

theorem encodeRecords_length (base : BlockHeaderExt) (records : List OwnedRecord) :
    4 * records.length ≤ (encodeRecords base records).length := by
  induction records with
  | nil => simp
  | cons r records ih =>
    have hr := r.encode_length base
    simp only [encodeRecords, flatMap_cons, length_append, length_cons] at ih ⊢
    omega

theorem slice_append (data : Bytes) (p n m : Nat) :
    slice data p n ++ slice data (p + n) m = slice data p (n + m) := by
  unfold slice
  rw [take_add, drop_drop]

theorem slice_take {m : Nat} (h : m ≤ n) : (slice data p n).take m = slice data p m := by
  unfold slice
  rw [take_take, Nat.min_eq_left h]

variable {x : External}

theorem readFrame_eq_ok_iff :
    readFrame x config data p = .ok frame ↔ Framed x config data p frame := by
  have hcrc : ∀ n m, 24 ≤ n → slice data (p + 8) 24
      ++ slice data (p + 32) (n - 24) ++ slice data (p + 8 + n) m = slice data (p + 8) (n + m) := by
    intro n m hn
    rw [slice_append data (p + 8) 24 (n - 24), show 24 + (n - 24) = n by omega, slice_append]
  simp only [readFrame, bind_eq_ok_iff, Prod.exists,
    readExact_eq_ok_iff, validateLength, ensure_eq_ok_iff]
  simp only [blockHeaderFixedLen, blockHeaderExtLen, blockHeaderTotalLen]
  constructor
  · rintro ⟨_, _, ⟨h8, rfl, rfl⟩, _, hmarker, _, _, ⟨h32, rfl, rfl⟩, header,
      hheader, _, hhlen, _, hext16, _, hclen, _, hulen, _, _,
      ⟨hhdr, rfl, rfl⟩, _, hhcrc, base, hext, _, _, ⟨hcomp, rfl, rfl⟩, _, _,
      ⟨hend, rfl, rfl⟩, _, hbcrc, hret⟩
    cases hret
    have hpos : p + 8 + 24 + (header.headerLen.toNat - 24)
        = p + 8 + header.headerLen.toNat := by omega
    rw [hpos] at hend hbcrc
    refine ⟨hmarker, hheader, hhlen, hclen, hulen, hhcrc, ?_, ?_, ?_, ?_, ?_⟩
    · rw [← hext]
      exact congrArg _ (slice_take hext16).symm
    · show _ = slice data _ _
      rw [← hpos]
      rfl
    · show _ = x.crc32c (slice data (p + 8) (header.headerLen.toNat + header.compressedLen.toNat))
      rw [← hcrc _ _ (by omega)]
      exact hbcrc
    · show _ + 4 = _
      rw [hpos]
    · show _ + 4 ≤ _
      rw [hpos]
      exact hend
  · intro hf
    have hend := hf.inside
    have hhlen := hf.headerLen
    rw [hf.endPos] at hend
    have hpos : p + 8 + 24 + (frame.header.headerLen.toNat - 24)
        = p + 8 + frame.header.headerLen.toNat := by omega
    refine ⟨_, _, ⟨by omega, rfl, rfl⟩, (), hf.marker, _, _,
      ⟨by omega, rfl, rfl⟩, _, hf.header, (), hf.headerLen, (), by omega, (),
      hf.compressedLen, (), hf.uncompressedLen, _, _, ⟨by omega, rfl, rfl⟩,
      (), hf.headerCrc, frame.base, ?_, _, _, ⟨by omega, rfl, rfl⟩, _, _,
      ⟨by omega, rfl, rfl⟩, (), ?_, ?_⟩
    · rw [← hf.base]
      exact congrArg _ (slice_take (by omega))
    · rw [hpos]
      refine hf.blockCrc.trans ?_
      rw [← hcrc _ _ (by omega)]
      rfl
    · obtain ⟨header, base, compressed, endPos⟩ := frame
      have hcompressed := hf.compressed
      have hendPos := hf.endPos
      simp only at hcompressed hendPos hpos
      rw [hpos, hcompressed, hendPos]
      rfl

theorem slice_eq_of_append {a c : Bytes}
    (h : a ++ (b ++ c) = data) (hp : a.length = p) (hn : b.length = n) : slice data p n = b := by
  subst hp hn h
  rw [slice, drop_left, take_left]

theorem framed_assembleBlock {header : BlockHeader} {compressed : Bytes}
    (hversion : header.version = formatVersion) (hheaderLen : header.headerLen.toNat = 40)
    (hlen : header.compressedLen.toNat = compressed.length)
    (hcrc : header.computeHeaderCrc x base.encode = header.headerCrc32c)
    (hc : compressed.length ≤ config.maxCompressedLen)
    (hu : header.uncompressedLen.toNat ≤ config.maxUncompressedLen)
    (hdata : data = pre ++ (assembleBlock x config.syncMarker header
      base.encode compressed ++ post)) : Framed x config data pre.length
      { header, base, compressed,
        endPos := pre.length + 52 + compressed.length } := by
  obtain ⟨crc, hbodyCrc⟩ : ∃ crc, x.crc32c (header.encode ++ base.encode ++ compressed) = crc :=
    ⟨_, rfl⟩
  have hlayout : data = pre ++ (config.syncMarker.toList ++ (header.encode
      ++ (base.encode ++ (compressed ++ (u32 crc ++ post))))) := by
    rw [hdata, assembleBlock, hbodyCrc]
    simp only [append_assoc]
  have hfixed : slice data (pre.length + 8) 24 = header.encode :=
    slice_eq_of_append (a := pre ++ config.syncMarker.toList)
      (c := base.encode ++ (compressed ++ (u32 crc ++ post)))
      (by simp [hlayout]) (by simp) (by simp)
  have hext : slice data (pre.length + 32) 16 = base.encode := slice_eq_of_append
      (a := pre ++ config.syncMarker.toList ++ header.encode) (c := compressed ++ (u32 crc ++ post))
      (by simp [hlayout]) (by simp) (by simp)
  have hcompressed : slice data (pre.length + 48) compressed.length = compressed :=
    slice_eq_of_append (a := pre ++ config.syncMarker.toList
        ++ header.encode ++ base.encode) (c := u32 crc ++ post) (by simp [hlayout]) (by simp) rfl
  have htrailer : slice data (pre.length + 48 + compressed.length) 4 = u32 crc :=
    slice_eq_of_append (a := pre ++ config.syncMarker.toList
        ++ header.encode ++ base.encode ++ compressed) (c := post)
      (by simp [hlayout]) (by simp; omega) (by simp)
  have hbody : slice data (pre.length + 8) (40 + compressed.length)
      = header.encode ++ base.encode ++ compressed :=
    slice_eq_of_append (a := pre ++ config.syncMarker.toList) (c := u32 crc ++ post)
      (by simp [hlayout]) (by simp) (by simp; omega)
  refine ⟨?_, ?_, Nat.le_of_eq hheaderLen.symm, ?_, hu, ?_, ?_, ?_, ?_, ?_, ?_⟩
  · exact slice_eq_of_append (a := pre) (c := header.encode ++ (base.encode ++ (compressed
        ++ (u32 crc ++ post)))) hlayout.symm rfl (by simp)
  · rw [hfixed]
    exact BlockHeader.decode_encode hversion
  · exact Nat.le_trans (Nat.le_of_eq hlen) hc
  · simp only [hheaderLen, hext]
    exact hcrc
  · rw [hext]
    exact BlockHeaderExt.decode_encode base
  · simp only [hheaderLen, hlen]
    exact hcompressed.symm
  · simp only [hheaderLen, hlen, hbody, hbodyCrc]
    exact htrailer ▸ toU32_u32_self _
  · simp only [hheaderLen, hlen]
    omega
  · simp [hlayout]
    omega

theorem blockAt_eq_some_iff : blockAt x config data p = some (records, e)
      ↔ ValidBlock x config data p records e := by
  unfold blockAt
  constructor
  · intro h
    split at h
    · cases h
    · rename_i frame hframe
      split at h
      · cases h
      · rename_i records' hdecode
        cases h
        obtain ⟨payload, hpayload, hparse⟩ := bind_eq_ok_iff.mp hdecode
        exact ⟨frame, payload, readFrame_eq_ok_iff.mp hframe, rfl, hpayload, hparse⟩
  · rintro ⟨frame, payload, hframe, rfl, hpayload, hparse⟩
    have hdecode : decodePayload x frame = .ok records :=
      bind_eq_ok_iff.mpr ⟨payload, hpayload, hparse⟩
    simp only [readFrame_eq_ok_iff.mpr hframe, hdecode]

theorem blockAt_advances (config : ReaderConfig) (data : Bytes) :
    Greedy.Advances (blockAt x config data) data.length := by
  intro p records e h
  obtain ⟨frame, _, hframe, rfl, -⟩ := blockAt_eq_some_iff.mp h
  exact readFrame_bounds x (readFrame_eq_ok_iff.mpr hframe)

theorem slice_embed (h : p + n ≤ b.length) :
    slice (pre ++ b ++ post) (pre.length + p) n = slice b p n := by
  unfold slice
  rw [append_assoc, drop_append, drop_eq_nil_of_le (by omega),
    nil_append, Nat.add_sub_cancel_left, drop_append_of_le_length
      (by omega), take_append_of_le_length]
  rw [length_drop]
  omega

theorem Framed.embed (h : Framed x config b p frame) (pre post : Bytes) :
    Framed x config (pre ++ b ++ post) (pre.length + p)
      { frame with endPos := pre.length + frame.endPos } := by
  have hend := h.inside
  have hhlen := h.headerLen
  rw [h.endPos] at hend
  refine ⟨?_, ?_, hhlen, h.compressedLen, h.uncompressedLen, ?_, ?_, ?_, ?_, ?_, ?_⟩
  · rw [slice_embed (by omega)]
    exact h.marker
  · rw [Nat.add_assoc, slice_embed (by omega)]
    exact h.header
  · rw [Nat.add_assoc, slice_embed (by simp only; omega)]
    exact h.headerCrc
  · rw [Nat.add_assoc, slice_embed (by omega)]
    exact h.base
  · simp only [Nat.add_assoc]
    rw [slice_embed (by omega), h.compressed, Nat.add_assoc]
  · simp only [Nat.add_assoc]
    rw [slice_embed (by omega), slice_embed (by omega)]
    have hcrc := h.blockCrc
    simp only [Nat.add_assoc] at hcrc
    exact hcrc
  · simp only [h.endPos]
    omega
  · simp only [length_append, h.endPos]
    omega

theorem ValidBlock.embed (h : ValidBlock x config b p records e) (pre post : Bytes) :
    ValidBlock x config (pre ++ b ++ post) (pre.length + p) records (pre.length + e) := by
  obtain ⟨frame, payload, hf, rfl, hpayload, hparse⟩ := h
  exact ⟨_, payload, hf.embed pre post, rfl, hpayload, hparse⟩

theorem buildBlock_eq_ok_iff {config : WriterConfig} {payload body : Bytes}
    {base : BlockHeaderExt} {count : UInt32} :
    buildBlock x config payload (some base.baseSeq) (some base.baseTsUnixNs) count = .ok body
      ↔ ∃ compressed, config.codec.compress x payload = .ok compressed
        ∧ payload.length < 2 ^ 32 ∧ compressed.length < 2 ^ 32
        ∧ body = assembleBlock x config.syncMarker
            (sealHeader x config.codec (UInt32.ofNat payload.length)
              (UInt32.ofNat compressed.length) count base.encode) base.encode compressed := by
  simp only [buildBlock, Option.elim, ok_bind, bind_eq_ok_iff, ensure_eq_ok_iff]
  constructor
  · rintro ⟨compressed, hcompress, _, hu, _, hc, hret⟩
    cases hret
    exact ⟨compressed, hcompress, hu, hc, rfl⟩
  · rintro ⟨compressed, hcompress, hu, hc, rfl⟩
    exact ⟨compressed, hcompress, (), hu, (), hc, rfl⟩

theorem assembleBlock_length (marker : Vector UInt8 8)
    (header : BlockHeader) (base : BlockHeaderExt) (compressed : Bytes) :
    (assembleBlock x marker header base.encode compressed).length = 52 + compressed.length := by
  simp [assembleBlock]
  omega

theorem headerOf_assembleBlock {marker : Vector UInt8 8}
    {header : BlockHeader} {base : BlockHeaderExt} {compressed : Bytes}
    (hversion : header.version = formatVersion) :
    headerOf (assembleBlock x marker header base.encode compressed) = some header := by
  have hslice : slice (assembleBlock x marker header base.encode compressed) 8 24 = header.encode :=
    slice_eq_of_append (a := marker.toList) (c := base.encode ++ (compressed
        ++ u32 (x.crc32c (header.encode ++ base.encode ++ compressed))))
      (by simp [assembleBlock]) (by simp) (by simp)
  rw [headerOf, hslice, BlockHeader.decode_encode hversion]

namespace Block

variable (b : Block x)

theorem exists_layout : ∃ compressed, b.config.codec.compress x (encodeRecords b.base b.records)
        = .ok compressed ∧ (encodeRecords b.base b.records).length < 2 ^ 32
      ∧ compressed.length < 2 ^ 32 ∧ b.body = assembleBlock x b.config.syncMarker
          (sealHeader x b.config.codec (UInt32.ofNat (encodeRecords b.base b.records).length)
            (UInt32.ofNat compressed.length) (UInt32.ofNat b.records.length) b.base.encode)
          b.base.encode compressed := buildBlock_eq_ok_iff.mp b.built

theorem headerOf_body : ∃ header, headerOf b.body = some header
    ∧ header.compressedLen.toNat ≤ b.body.length
    ∧ 4 * b.records.length ≤ header.uncompressedLen.toNat := by
  obtain ⟨compressed, -, hu, hc, hbody⟩ := b.exists_layout
  refine ⟨_, by rw [hbody]; exact headerOf_assembleBlock rfl, ?_, ?_⟩
  · rw [hbody, assembleBlock_length]
    show (UInt32.ofNat compressed.length).toNat ≤ _
    rw [UInt32.toNat_ofNat_of_lt' hc]
    omega
  · show _ ≤ (UInt32.ofNat _).toNat
    rw [UInt32.toNat_ofNat_of_lt' hu]
    exact encodeRecords_length b.base b.records

theorem readFrame_body (hx : x.RoundTrip) {config : ReaderConfig}
    (hmarker : config.syncMarker = b.config.syncMarker)
    (hlimits : WithinLimits config b.body) {pre post data : Bytes}
    (hdata : data = pre ++ (b.body ++ post)) :
    ∃ frame, readFrame x config data pre.length = .ok frame ∧ headerOf b.body = some frame.header
      ∧ decodePayload x frame = .ok b.records ∧ frame.endPos = pre.length + b.body.length := by
  obtain ⟨compressed, hcompress, hu, hc, hbody⟩ := b.exists_layout
  rw [hbody, ← hmarker] at hdata
  have hheader := @headerOf_assembleBlock x b.config.syncMarker (sealHeader x b.config.codec
      (UInt32.ofNat (encodeRecords b.base b.records).length)
      (UInt32.ofNat compressed.length) (UInt32.ofNat b.records.length)
      b.base.encode) b.base compressed rfl
  rw [← hbody] at hheader
  have hlim := hlimits _ hheader
  have hulen : (UInt32.ofNat (encodeRecords b.base b.records).length).toNat
      = (encodeRecords b.base b.records).length := UInt32.toNat_ofNat_of_lt' hu
  have hclen : (UInt32.ofNat compressed.length).toNat = compressed.length :=
    UInt32.toNat_ofNat_of_lt' hc
  have hcount : (UInt32.ofNat b.records.length).toNat = b.records.length := by
    have hfour := encodeRecords_length b.base b.records
    exact UInt32.toNat_ofNat_of_lt' (show b.records.length < 2 ^ 32 by omega)
  refine ⟨_, readFrame_eq_ok_iff.mpr (framed_assembleBlock rfl rfl hclen
    (sealHeader_crc _ _ _ _ _ _) (hclen ▸ hlim.1) hlim.2 hdata), hheader, ?_, ?_⟩
  · refine bind_eq_ok_iff.mpr ⟨encodeRecords b.base b.records, ?_, ?_⟩
    · show b.config.codec.decompress x compressed (UInt32.ofNat _).toNat = _
      rw [hulen]
      exact Codec.decompress_compress hx hcompress
    · show parseRecordsLoop b.base _ (UInt32.ofNat b.records.length).toNat _ = _
      rw [hcount]
      exact parseRecordsLoop_encode b.below (by omega) (Nat.le_refl _)
  · show pre.length + 52 + compressed.length = _
    rw [hbody, assembleBlock_length]
    omega

end Block

end Logjet
