/-
What the index of a file says about its blocks
(src/ljx/src/dataset_index.rs), with sets that are given up past sixteen
values. It can rule out that a query matches (`mayMatch`).
-/
import Logjet.Lib.Capped
import Logjet.Ljx.Predicate

namespace Logjet.Ljx

def summaryLimit : Nat := 16

abbrev Capped := CappedSet String

def insertCapped (set : Capped) (value : String) : Capped := CappedSet.insert summaryLimit set value

def mergeSet (set : Capped) (values : List String) (valuesComplete : Bool) : Capped :=
  if !set.complete then set
  else if !valuesComplete then { set with complete := false }
  else values.foldl insertCapped set

structure IndexSummary where
  size : Nat
  modifiedNs : Option UInt64
  firstSeq : Option UInt64
  lastSeq : Option UInt64
  firstTsUnixNs : Option UInt64
  lastTsUnixNs : Option UInt64
  recordTypes : UInt8
  services : List String
  servicesComplete : Bool
  severities : List String
  severitiesComplete : Bool
  deriving DecidableEq, Repr

structure IndexBlock where
  offset : Nat
  len : Nat
  firstSeq : Option UInt64
  lastSeq : Option UInt64
  firstTsUnixNs : Option UInt64
  lastTsUnixNs : Option UInt64
  recordTypes : UInt8
  services : List String
  servicesComplete : Bool
  severities : List String
  severitiesComplete : Bool
  deriving DecidableEq, Repr

def recordTypeBit : RecordType → UInt8
  | .logs => 1
  | .metrics => 2
  | .traces => 4
  | .events => 8

def IndexSummary.mayMatch (self : IndexSummary) (predicate : RecordPredicate) : Bool :=
  if predicate.recordType.any fun kind => self.recordTypes &&& recordTypeBit kind = 0 then false
  else if predicate.seqMin.any fun min => self.lastSeq.any fun last => last < min then false
  else if predicate.seqMax.any fun max => self.firstSeq.any fun first => first > max then false
  else if predicate.tsMin.any fun min => self.lastTsUnixNs.any fun last => last < min then false
  else if predicate.tsMax.any fun max => self.firstTsUnixNs.any fun first => first > max then false
  else if predicate.fieldFilter.services.any fun services =>
      self.servicesComplete && !decide (∃ svc ∈ services, svc ∈ self.services) then false
  else if predicate.fieldFilter.severities.any fun severities =>
      self.severitiesComplete && !decide (∃ sev ∈ severities, sev ∈ self.severities) then false
  else true

def IndexBlock.mayMatch (self : IndexBlock) (predicate : RecordPredicate) : Bool :=
  IndexSummary.mayMatch
    { size := self.len
      modifiedNs := none
      firstSeq := self.firstSeq
      lastSeq := self.lastSeq
      firstTsUnixNs := self.firstTsUnixNs
      lastTsUnixNs := self.lastTsUnixNs
      recordTypes := self.recordTypes
      services := self.services
      servicesComplete := self.servicesComplete
      severities := self.severities
      severitiesComplete := self.severitiesComplete } predicate

structure SummaryBuilder where
  firstSeq : Option UInt64
  lastSeq : Option UInt64
  firstTsUnixNs : Option UInt64
  lastTsUnixNs : Option UInt64
  recordTypes : UInt8
  services : Capped
  severities : Capped
  deriving DecidableEq

def SummaryBuilder.default : SummaryBuilder :=
  { firstSeq := none, lastSeq := none, firstTsUnixNs := none,
    lastTsUnixNs := none, recordTypes := 0, services := .empty,
    severities := .empty }

def collectService (services : Capped) (attr : KeyValue) : Capped :=
  if attr.key = "service.name" then
    match attr.stringValue with
    | some value => insertCapped services value
    | none => services
  else services

def collectSeverity (severities : Capped) (lr : LogRecord) : Capped :=
  if lr.severityText.isEmpty then severities
  else insertCapped severities lr.severityText

def collectResourceLogs (sets : Capped × Capped) (rl : ResourceLogs) : Capped × Capped :=
  let services := ((rl.resource.map Resource.attributes).getD []).foldl collectService sets.1
  let severities := rl.scopeLogs.foldl (fun severities sl =>
    sl.logRecords.foldl collectSeverity severities) sets.2
  (services, severities)

def collectLogSummaries (decode : DecodeLogs) (payload : Bytes)
    (services severities : Capped) : Capped × Capped :=
  match decode payload with
  | none => (services, severities)
  | some batch => batch.resourceLogs.foldl collectResourceLogs (services, severities)

def SummaryBuilder.push (decode : DecodeLogs) (self : SummaryBuilder)
    (record : OwnedRecord) : SummaryBuilder :=
  let sets :=
    if record.recordType = .logs then
      collectLogSummaries decode record.payload self.services
        self.severities
    else (self.services, self.severities)
  { firstSeq := self.firstSeq.or (some record.seq)
    lastSeq := some record.seq
    firstTsUnixNs := self.firstTsUnixNs.or (some record.tsUnixNs)
    lastTsUnixNs := some record.tsUnixNs
    recordTypes := self.recordTypes ||| recordTypeBit record.recordType
    services := sets.1
    severities := sets.2 }

def SummaryBuilder.merge (self : SummaryBuilder) (block : IndexBlock) : SummaryBuilder :=
  { firstSeq := self.firstSeq.or block.firstSeq
    lastSeq := block.lastSeq.or self.lastSeq
    firstTsUnixNs := self.firstTsUnixNs.or block.firstTsUnixNs
    lastTsUnixNs := block.lastTsUnixNs.or self.lastTsUnixNs
    recordTypes := self.recordTypes ||| block.recordTypes
    services := mergeSet self.services block.services
      block.servicesComplete
    severities := mergeSet self.severities block.severities
      block.severitiesComplete }

def SummaryBuilder.finish (self : SummaryBuilder) (size : Nat)
    (modifiedNs : Option UInt64) : IndexSummary :=
  { size
    modifiedNs
    firstSeq := self.firstSeq
    lastSeq := self.lastSeq
    firstTsUnixNs := self.firstTsUnixNs
    lastTsUnixNs := self.lastTsUnixNs
    recordTypes := self.recordTypes
    services := self.services.values.sort
    servicesComplete := self.services.complete
    severities := self.severities.values.sort
    severitiesComplete := self.severities.complete }

def IndexBlock.ofSummary (offset len : Nat) (summary : IndexSummary) : IndexBlock :=
  { offset
    len
    firstSeq := summary.firstSeq
    lastSeq := summary.lastSeq
    firstTsUnixNs := summary.firstTsUnixNs
    lastTsUnixNs := summary.lastTsUnixNs
    recordTypes := summary.recordTypes
    services := summary.services
    servicesComplete := summary.servicesComplete
    severities := summary.severities
    severitiesComplete := summary.severitiesComplete }

def IndexBlock.ofRecords (decode : DecodeLogs) (offset len : Nat)
    (records : List OwnedRecord) : IndexBlock :=
  let summary := records.foldl (SummaryBuilder.push decode) .default
  .ofSummary offset len (summary.finish len none)

def IndexSummary.ofBlocks (size : Nat) (modifiedNs : Option UInt64)
    (blocks : List IndexBlock) : IndexSummary :=
  (blocks.foldl SummaryBuilder.merge .default).finish size modifiedNs

end Logjet.Ljx
