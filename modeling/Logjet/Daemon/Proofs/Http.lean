/-
The limit of OTLP/HTTP ingest: a gzip body is expanded after the last look at
its length.
-/
import Logjet.Reference
import Logjet.Daemon.Http

namespace Logjet

open EStateM

variable {x : External} {overload : IngestOverloadConfig} {clock : Clock}
  {h : HttpExternal} {maxBatchBytes : Nat} {req : HttpRequest} {s : HttpIngest}

def Stores (h : HttpExternal) (maxBatchBytes : Nat) (req : HttpRequest)
    (record : WireRecord) : Prop :=
  ∃ body, req.body = .ok body ∧ body.length ≤ maxBatchBytes
    ∧ maybeDecompressBody h body (req.header "content-encoding") = .ok record.payload

def AppendsNone (s s' : HttpIngest) : Prop := s'.appended = s.appended

def AppendsOne (P : WireRecord → Prop) (s s' : HttpIngest) : Prop :=
  ∃ record, P record ∧ s'.appended = s.appended ++ [record]

theorem HttpIngest.appendBatchRecord_appends (record : WireRecord) :
    Ends (HttpIngest.appendBatchRecord x record) s (fun _ => AppendsOne (· = record) s)
      (fun _ => AppendsOne (· = record) s) := by
  apply Ends.bind
  unfold Ends HttpIngest.append
  dsimp only
  cases Spool.append x record s.spool with
  | ok _ spool => exact ⟨record, rfl, rfl⟩
  | error err spool => exact ⟨record, rfl, rfl⟩

def HandledBy (Q : WireRecord → Prop)
    (act : EStateM IoError HttpIngest HttpResponse) (s : HttpIngest) : Prop :=
  Ends act s
    (fun resp s' => (resp.status = 200 → AppendsOne Q s s')
      ∧ (resp.status ≠ 200 → AppendsNone s s')) (fun _ s' => AppendsNone s s' ∨ AppendsOne Q s s')

namespace HandledBy

variable {Q : WireRecord → Prop}

theorem reply {status : Nat} (hstatus : status ≠ 200) (body : String) :
    HandledBy Q (pure ⟨status, body⟩) s := ⟨fun h200 => absurd h200 hstatus, fun _ => rfl⟩

theorem tooLarge : HandledBy Q (payloadTooLarge overload clock) s :=
  ⟨fun h200 => absurd h200 (by decide), fun _ => rfl⟩

theorem ingest {β : Type} {bodyVec : Bytes} (signal : Signal β)
    (hQ : ∀ record : WireRecord, record.payload = bodyVec → Q record) :
    HandledBy Q (signal.ingest x overload clock bodyVec) s := by
  unfold Signal.ingest
  cases signal.decode bodyVec with
  | error err => exact reply (by decide) _
  | ok batch =>
    apply Ends.bind
    show Ends _ { s with policy := _ } _ _
    apply Ends.ite
    · intro _
      exact reply (by decide) _
    · intro _
      apply Ends.bind
      show Ends _ { s with policy := _, nextSeq := _ } _ _
      apply Ends.bind
      apply (HttpIngest.appendBatchRecord_appends _).mono
      · intro _ s' ⟨record, hrecord, happended⟩
        have hone : AppendsOne Q s s' := ⟨record, hQ record (by rw [hrecord]), happended⟩
        exact ⟨fun _ => hone, fun hne => absurd rfl hne⟩
      · intro _ s' ⟨record, hrecord, happended⟩
        exact .inr ⟨record, hQ record (by rw [hrecord]), happended⟩

end HandledBy

theorem handleBody_appends {bodyBytes : Bytes} (hbody : req.body = .ok bodyBytes) :
    HandledBy (Stores h maxBatchBytes req)
      (handleBody x overload clock h maxBatchBytes req bodyBytes) s := by
  unfold handleBody
  by_cases hlen : bodyBytes.length > maxBatchBytes
  · rw [if_pos hlen]
    exact HandledBy.tooLarge
  rw [if_neg hlen]
  cases hbytes : maybeDecompressBody h bodyBytes (req.header "content-encoding") with
  | error err => exact HandledBy.reply (by decide) _
  | ok bodyVec =>
    have hstores : ∀ record : WireRecord, record.payload = bodyVec →
        Stores h maxBatchBytes req record := by
      intro record hpayload
      exact ⟨bodyBytes, hbody, Nat.le_of_not_lt hlen, by rw [hbytes, hpayload]⟩
    dsimp only
    split
    · exact HandledBy.ingest _ hstores
    · split
      · exact HandledBy.ingest _ hstores
      · exact HandledBy.ingest _ hstores

theorem handleOtlpHttpRequest_appends : HandledBy (Stores h maxBatchBytes req)
      (handleOtlpHttpRequest x overload clock h maxBatchBytes req) s := by
  unfold handleOtlpHttpRequest
  split
  · exact HandledBy.reply (by decide) _
  · split
    · exact HandledBy.tooLarge
    · cases hbody : req.body with
      | error err => exact .inl rfl
      | ok bodyBytes => exact handleBody_appends hbody

theorem stores_of_mem_appendedWhile {record : WireRecord} (hrecord : record ∈
      appendedWhile x overload clock h maxBatchBytes req s) :
    Stores h maxBatchBytes req record := by
  have hone : ∀ s', AppendsOne (Stores h maxBatchBytes req) s s' →
      record ∈ s'.appended.drop s.appended.length → Stores h maxBatchBytes req record := by
    intro s' ⟨r, hr, happended⟩ hmem
    rw [happended, List.drop_left, List.mem_singleton] at hmem
    rw [hmem]
    exact hr
  have hnone : ∀ s', AppendsNone s s' → record ∉ s'.appended.drop s.appended.length := by
    intro s' happended hmem
    rw [happended, List.drop_length] at hmem
    exact List.not_mem_nil hmem
  have hends := @handleOtlpHttpRequest_appends x overload clock h maxBatchBytes req s
  unfold appendedWhile at hrecord
  split at hrecord
  next resp s' hrun =>
    have hresp := hends.ok hrun
    by_cases hstatus : resp.status = 200
    · exact hone s' (hresp.1 hstatus) hrecord
    · exact absurd hrecord (hnone s' (hresp.2 hstatus))
  next err s' hrun =>
    cases hends.error hrun with
    | inl happended => exact absurd hrecord (hnone s' happended)
    | inr happended => exact hone s' happended hrecord

def HttpRequest.Gzipped (req : HttpRequest) : Prop :=
  req.header "content-encoding" = some "gzip".toList
    ∨ req.header "content-encoding" = some "x-gzip".toList

def ExpandsWithin (h : HttpExternal) (maxBatchBytes : Nat) (req : HttpRequest) : Prop :=
  req.Gzipped → ∀ body out, req.body = .ok body → h.gunzip body = .ok out →
    out.length ≤ maxBatchBytes

theorem maybeDecompressBody_of_gzipped {body : Bytes} (hgzip : req.Gzipped) :
    maybeDecompressBody h body (req.header "content-encoding") = (h.gunzip body).mapError fun err =>
        ⟨.invalidData, "gzip decompression failed: " ++ err⟩ :=
  if_pos hgzip

theorem maybeDecompressBody_of_plain {body : Bytes} (hgzip : ¬ req.Gzipped) :
    maybeDecompressBody h body (req.header "content-encoding") = .ok body := if_neg hgzip

theorem Stores.within_iff {record : WireRecord} (hstores : Stores h maxBatchBytes req record) :
    record.payload.length ≤ maxBatchBytes ↔ ExpandsWithin h maxBatchBytes req := by
  obtain ⟨body, hbody, hlen, hpayload⟩ := hstores
  by_cases hgzip : req.Gzipped
  · have hout : h.gunzip body = .ok record.payload := by
      rw [maybeDecompressBody_of_gzipped hgzip] at hpayload
      cases hrun : h.gunzip body with
      | error err => rw [hrun] at hpayload; cases hpayload
      | ok out => rw [hrun] at hpayload; cases hpayload; rfl
    constructor
    · intro hle _ body' out hbody' hout'
      rw [hbody] at hbody'
      cases hbody'
      rw [hout] at hout'
      cases hout'
      exact hle
    · intro hwithin
      exact hwithin hgzip body _ hbody hout
  · rw [maybeDecompressBody_of_plain hgzip] at hpayload
    cases hpayload
    exact ⟨fun _ hgz => absurd hgz hgzip, fun _ => hlen⟩

/-- The batch limit bounds the stored payload iff the body stays in it. -/
theorem http_limit_iff (x : External) (h : HttpExternal)
    (overload : IngestOverloadConfig) (clock : Clock) (maxBatchBytes : Nat)
    (req : HttpRequest) (s : HttpIngest) :
    ∀ record ∈ appendedWhile x overload clock h maxBatchBytes req s,
      record.payload.length ≤ maxBatchBytes ↔ ExpandsWithin h maxBatchBytes req := by
  intro record hrecord
  exact (stores_of_mem_appendedWhile hrecord).within_iff

/-- An OTLP log batch: one record, whose body is 64 times the letter a. -/
def repetitiveBatch : Bytes :=
  [10, 72, 18, 70, 18, 68, 42, 66, 10, 64] ++ List.replicate 64 97

/-- The 33 bytes `gzip` makes of it. -/
def gzipBatch : Bytes :=
  [31, 139, 8, 0, 0, 0, 0, 0, 0, 3, 227, 242, 16, 114, 19, 114, 209, 114,
    226, 114, 72, 164, 16, 0, 0, 216, 226, 60, 82, 74, 0, 0, 0]

/-- A table of what `flate2` and `prost` give on these bytes. -/
def tableHttp : HttpExternal where
  gunzip body :=
    if body = gzipBatch then .ok repetitiveBatch else .error "invalid gzip header"
  decodeLogs body :=
    if body = repetitiveBatch then
      .ok ⟨[⟨none, [⟨none, [{
        severityText := "", other := []
        body := some ⟨some (.stringValue (String.ofList (List.replicate 64 'a')))⟩ }],
          ""⟩], ""⟩]⟩
    else .error "failed to decode Protobuf message"
  decodeMetrics _ := .error "failed to decode Protobuf message"
  decodeTraces _ := .error "failed to decode Protobuf message"

def unlimitedPolicy : IngestOverloadConfig :=
  { maxBatchesPerSecond := 0, prioritySeverityFloor := .error
    reportEveryMs := 5000 }

def firstIngest : HttpIngest :=
  { policy := .new unlimitedPolicy 0, nextSeq := 1
    spool := .buffer (.new { limit := .bytes 1000, keepMessages := 0 } 7)
    generation := 0, appended := [] }

def gzippedLogs : HttpRequest :=
  { method := "POST", path := "/v1/logs"
    headers := [("content-length", [51, 51]),
      ("content-encoding", [103, 122, 105, 112])]
    body := .ok gzipBatch }

theorem http_limit_kept : ∃ record ∈ appendedWhile Reference.external unlimitedPolicy ⟨0, 0, 9⟩
        tableHttp 80 gzippedLogs firstIngest, record.payload.length ≤ 80 := by
  have hmem : (⟨.logs, 1, 9, repetitiveBatch⟩ : WireRecord) ∈ appendedWhile
      Reference.external unlimitedPolicy ⟨0, 0, 9⟩ tableHttp 80 gzippedLogs firstIngest := by
    decide +kernel
  have hexpands : ExpandsWithin tableHttp 80 gzippedLogs := by
    intro _ body out hbody hout
    cases hbody
    cases hout
    decide
  exact ⟨_, hmem, (http_limit_iff _ _ _ _ _ _ _ _ hmem).mpr hexpands⟩

theorem http_limit_missed : appendedWhile Reference.external unlimitedPolicy ⟨0, 0, 9⟩ tableHttp
        40 gzippedLogs firstIngest = [⟨.logs, 1, 9, repetitiveBatch⟩]
      ∧ gzipBatch.length = 33 ∧ repetitiveBatch.length = 74 := by decide +kernel

end Logjet
