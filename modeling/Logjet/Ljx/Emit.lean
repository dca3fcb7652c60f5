/-
The output of `ljx dedup` (src/ljx/src/dedup/emit.rs): a log record for
each group and the records that pass through, pushed in the order of their
times under new numbers. Encoding is `prost`'s, a parameter.
-/
import Logjet.Writer
import Logjet.Ljx.Dedup

namespace Logjet.Ljx

def attrStr (key : String) (val : String) : KeyValue :=
  { key, value := some ⟨some (.stringValue val)⟩ }

def attrI64 (key : String) (val : Int64) : KeyValue := { key, value := some ⟨some (.intValue val)⟩ }

structure DedupMetadata where
  effectiveMode : String
  behaviour : String
  matcher : String
  scope : String
  window : String
  deriving DecidableEq, Repr

def splitOnceSlash (label : String) : Option (String × String) :=
  match label.toList.span (· ≠ '/') with
  | (_, []) => none
  | (before, _ :: after) => some (String.ofList before, String.ofList after)

def dedupMetadata (modeLabel : String) (usedDrain3 : Bool) : DedupMetadata :=
  let (behaviour, baseMatcher) := (splitOnceSlash modeLabel).getD (modeLabel, "exact")
  let matcher := if usedDrain3 && baseMatcher = "full" then "drain3"
    else if baseMatcher = "full" then "canon"
    else baseMatcher
  { effectiveMode := behaviour ++ "/" ++ matcher
    behaviour, matcher
    scope :=
      if behaviour = "distinct" then "global"
      else if behaviour = "collapse" then "bucketed"
      else "unknown"
    window :=
      if behaviour = "distinct" then "whole-selection"
      else if behaviour = "collapse" then "consecutive-run"
      else "unknown" }

def hex16 (value : UInt64) : String :=
  String.ofList ((List.range 16).map fun i =>
    hexNibble ((value >>> UInt64.ofNat (4 * (15 - i))) &&& 0x0f).toUInt8)

def dedupAttrs (group : DedupGroup) (modeLabel : String) : List KeyValue :=
  let info := dedupMetadata modeLabel group.drain3Template.isSome
  let ids := fun (exemplars : List Text) => String.ofList ([','].intercalate exemplars)
  group.representative.recordAttrs ++ [attrI64 "dedup.count" (Int64.ofNat group.count),
      attrStr "dedup.mode" info.effectiveMode, attrStr "dedup.behaviour" info.behaviour,
      attrStr "dedup.matcher" info.matcher, attrStr "dedup.scope" info.scope,
      attrStr "dedup.window" info.window, attrStr "dedup.signature" (hex16 group.signature),
      attrI64 "dedup.first_seen_ns" group.firstSeenNs.toInt64,
      attrI64 "dedup.last_seen_ns" group.lastSeenNs.toInt64, attrI64 "dedup.time_span_ms"
        (saturatingSub group.lastSeenNs group.firstSeenNs / 1000000).toInt64,
      attrStr "dedup.exemplar_trace_ids" (ids group.exemplarTraceIds),
      attrStr "dedup.exemplar_span_ids" (ids group.exemplarSpanIds)]
    ++ (group.canonicalBody.map (attrStr "dedup.canonical_body")).toList
    ++ (group.bodyShape.map (attrStr "dedup.body_shape")).toList
    ++ (group.drain3Template.map (attrStr "dedup.drain3_template")).toList
    ++ (group.drain3ClusterId.map fun cid =>
        attrI64 "dedup.drain3_cluster_id" (Int64.ofInt cid)).toList

def dedupBatch (group : DedupGroup) (modeLabel : String) :
    ExportLogsServiceRequest :=
  let rep := group.representative
  let lr : LogRecord :=
    { timeUnixNano := group.firstSeenNs
      observedTimeUnixNano := group.lastSeenNs
      severityNumber := rep.severityNumber
      severityText := rep.severityText
      body := some ⟨some (.stringValue rep.body)⟩
      attributes := dedupAttrs group modeLabel
      traceId := rep.traceId
      spanId := rep.spanId
      eventName := rep.eventName
      other := [] }
  { resourceLogs :=
      [{ resource := some { attributes := rep.resourceAttrs, other := [] }
         scopeLogs :=
           [{ scope := some
                { name := rep.scopeName, attributes := rep.scopeAttrs
                  encoded := [] }
              logRecords := [lr]
              schemaUrl := "" }]
         schemaUrl := "" }] }

def buildOtlpPayload (encode : ExportLogsServiceRequest → Bytes)
    (modeLabel : String) (group : DedupGroup) : Bytes := encode (dedupBatch group modeLabel)

structure DedupStats where
  totalRecords : Nat
  groupCount : Nat
  deriving DecidableEq, Repr

section

variable (encode : ExportLogsServiceRequest → Bytes) (modeLabel : String)

def emitRecords (groups : List DedupGroup) (passthrough : List OwnedRecord) :
    List (UInt64 × RecordType × Bytes) :=
  groups.map (fun group =>
      (group.firstSeenNs, .logs, buildOtlpPayload encode modeLabel group))
    ++ passthrough.map fun r => (r.tsUnixNs, r.recordType, r.payload)

def emitPushes (groups : List DedupGroup) (passthrough : List OwnedRecord) : List OwnedRecord :=
  ((emitRecords encode modeLabel groups passthrough).mergeSort (fun a b => a.1 ≤ b.1)).zipIdx.map
    fun ((ts, rt, payload), seq) => ⟨rt, UInt64.ofNat seq, ts, payload⟩

def emitWrite {W : Type} [Sink W] (x : External)
    (groups : List DedupGroup) (passthrough : List OwnedRecord) :
    EStateM Error (LogjetWriter W) DedupStats := do
  pushAll x (emitPushes encode modeLabel groups passthrough)
  return { totalRecords := (groups.map DedupGroup.count).sum
           groupCount := groups.length }

end

def modeLabel {F : Type} (opts : DedupOpts F) : String :=
  match opts.mode, opts.matchMode with
  | .distinct, .exact => "distinct/exact"
  | .distinct, .hash2 => "distinct/canon"
  | .distinct, .full => "distinct/full"
  | .collapse, .exact => "collapse/exact"
  | .collapse, .hash2 => "collapse/canon"
  | .collapse, .full => "collapse/full"

end Logjet.Ljx
