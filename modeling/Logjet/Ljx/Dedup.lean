/-
The groups of `ljx dedup` (src/ljx/src/dedup: flat_record.rs, bucket.rs,
exact.rs, canon.rs `canon_dedup`, collapse.rs, mod.rs). Hash and canonical
form of a body are parameters, and a panic is `none`.
-/
import Logjet.Otlp
import Logjet.Ljx.Drain3

namespace Logjet.Ljx

inductive BucketKeyKind
  | global
  | default
  | scope
  | sourceLine
  | scopeAndSourceLine
  deriving DecidableEq, Repr

structure BucketKey where
  serviceName : String
  severityNumber : Int32
  scopeName : Option String
  codeFilepath : Option String
  codeLineno : Option Int64
  deriving DecidableEq, Repr

structure FlatRecord where
  serviceName : String
  severityNumber : Int32
  severityText : String
  scopeName : String
  eventName : String
  codeFilepath : Option String
  codeLineno : Option Int64
  traceId : Bytes
  spanId : Bytes
  timeUnixNano : UInt64
  observedTimeUnixNano : UInt64
  body : String
  resourceAttrs : List KeyValue
  scopeAttrs : List KeyValue
  recordAttrs : List KeyValue
  deriving DecidableEq, Repr

def BucketKey.fromRecord (record : FlatRecord) (kind : BucketKeyKind) : BucketKey :=
  let scopeName := match kind with
    | .scope | .scopeAndSourceLine => some record.scopeName
    | _ => none
  let (codeFilepath, codeLineno) := match kind with
    | .sourceLine | .scopeAndSourceLine => (record.codeFilepath, record.codeLineno)
    | _ => (none, none)
  match kind with
  | .global =>
    { serviceName := "", severityNumber := 0, scopeName := none
      codeFilepath := none, codeLineno := none }
  | _ =>
    { serviceName := record.serviceName
      severityNumber := record.severityNumber
      scopeName, codeFilepath, codeLineno }

inductive DedupMode
  | distinct
  | collapse
  deriving DecidableEq, Repr

inductive DedupBucketPolicy
  | global
  | requested
  deriving DecidableEq, Repr

def DedupMode.bucketPolicy : DedupMode → DedupBucketPolicy
  | .distinct => .global
  | .collapse => .requested

inductive DedupMatchMode
  | exact
  | hash2
  | full
  deriving DecidableEq, Repr

def DedupMatchMode.rank : DedupMatchMode → Nat
  | .exact => 0
  | .hash2 => 1
  | .full => 2

structure DrainOpts (F : Type) where
  simTh : F
  depth : Int
  extraDelimiters : List Text

structure DedupOpts (F : Type) where
  mode : DedupMode
  matchMode : DedupMatchMode
  bucketKey : BucketKeyKind
  drain : DrainOpts F

structure DedupExternal where
  xxh3 : Bytes → UInt64
  canonicaliseBody : String → String × String

def DedupExternal.hash (fns : DedupExternal) (text : String) : UInt64 := fns.xxh3 (utf8 text.toList)

def hexNibble (n : UInt8) : Char :=
  if n ≤ 9 then Char.ofNat ('0'.toNat + n.toNat)
  else Char.ofNat ('a'.toNat + n.toNat - 10)

def hexEncode (bytes : Bytes) : Text :=
  bytes.flatMap fun (b : UInt8) => [hexNibble (b >>> 4), hexNibble (b &&& 0x0f)]

structure DedupGroup where
  bucketKey : BucketKey
  signature : UInt64
  count : Nat
  representative : FlatRecord
  firstSeenNs : UInt64
  lastSeenNs : UInt64
  exemplarTraceIds : List Text
  exemplarSpanIds : List Text
  canonicalBody : Option String
  bodyShape : Option String
  drain3Template : Option String
  drain3ClusterId : Option Int
  deriving DecidableEq, Repr

def effectiveTimestamp (record : FlatRecord) : UInt64 :=
  if record.timeUnixNano ≠ 0 then record.timeUnixNano
  else record.observedTimeUnixNano

def collectExemplar (exemplars : List Text) (id : Bytes) : List Text :=
  let hex := hexEncode id
  if hex.isEmpty || hex.all (· = '0') then exemplars
  else
    match exemplars.length with
    | 0 | 1 => exemplars ++ [hex]
    | 2 => exemplars.set 1 hex
    | _ => exemplars.set 2 hex

namespace DedupGroup

def new (bucketKey : BucketKey) (signature : UInt64) (record : FlatRecord) : DedupGroup :=
  { bucketKey, signature
    count := 1
    firstSeenNs := effectiveTimestamp record
    lastSeenNs := effectiveTimestamp record
    exemplarTraceIds := [hexEncode record.traceId]
    exemplarSpanIds := [hexEncode record.spanId]
    canonicalBody := none
    bodyShape := none
    drain3Template := none
    drain3ClusterId := none
    representative := record }

def absorb (self : DedupGroup) (record : FlatRecord) : DedupGroup :=
  let ts := effectiveTimestamp record
  { self with
    count := self.count + 1
    firstSeenNs := if ts < self.firstSeenNs then ts else self.firstSeenNs
    lastSeenNs := if ts > self.lastSeenNs then ts else self.lastSeenNs
    exemplarTraceIds := collectExemplar self.exemplarTraceIds record.traceId
    exemplarSpanIds := collectExemplar self.exemplarSpanIds record.spanId }

def mergeGroup (self other : DedupGroup) : DedupGroup :=
  { self with
    count := self.count + other.count
    firstSeenNs :=
      if other.firstSeenNs < self.firstSeenNs then other.firstSeenNs
      else self.firstSeenNs
    lastSeenNs :=
      if other.lastSeenNs > self.lastSeenNs then other.lastSeenNs
      else self.lastSeenNs }

end DedupGroup

section

variable (fns : DedupExternal) (order : HashOrder)

def bucketGroup (records : List FlatRecord) (kind : BucketKeyKind) :
    List (BucketKey × List FlatRecord) := HashMap.groupBy (BucketKey.fromRecord · kind) records

def dedupBucket (key : BucketKey) (records : List FlatRecord) : List DedupGroup :=
  IndexedGroups.build (fun record => fns.hash record.body)
    (fun record => .new key (fns.hash record.body) record) DedupGroup.absorb records

def exactDedup (buckets : List (BucketKey × List FlatRecord)) : List DedupGroup :=
  (order.iter [0] buckets).flatMap fun (key, records) => dedupBucket fns key records

def annotate (g : DedupGroup) : DedupGroup :=
  let (canon, shape) := fns.canonicaliseBody g.representative.body
  { g with canonicalBody := some canon, bodyShape := some shape }

def canonHash (g : DedupGroup) : UInt64 := fns.hash (g.canonicalBody.getD "")

def canonDedup (groups : List DedupGroup) : List DedupGroup :=
  IndexedGroups.build (fun g => (g.bucketKey, canonHash fns g))
    (fun g => { g with signature := canonHash fns g })
    DedupGroup.mergeGroup (groups.map (annotate fns))

variable {F : Type} [Similarity F] (drain : DrainOpts F)

def drainConfig (maxClusters : Nat) : DrainConfig F :=
  { depth := drain.depth
    simTh := drain.simTh
    maxChildren := 100
    maxClusters
    extraDelimiters := drain.extraDelimiters
    parametrizeNumericTokens := true }

def assignClusters (path : List Nat) : Nat → List DedupGroup → Drain F →
    List (Int × List Nat) → Option (Drain F × List (Int × List Nat))
  | _, [], engine, drainGroups => some (engine, drainGroups)
  | i, g :: residuals, engine, drainGroups => do
      let body := g.canonicalBody.getD g.representative.body
      let ((cid, _), engine) ← engine.addLogMessage order path body.toList
      assignClusters path (i + 1) residuals engine (HashMap.pushAt cid i drainGroups)

def mergeCluster (engine : Drain F) (residuals : List DedupGroup)
    (entry : Int × List Nat) : Option DedupGroup :=
  match entry with
  | (_, []) => none
  | (_, [idx]) => residuals[idx]?
  | (cid, firstIdx :: indices) => do
      let first ← residuals[firstIdx]?
      let others ← indices.mapM (residuals[·]?)
      let group := others.foldl DedupGroup.mergeGroup first
      let template := ((HashMap.get cid engine.clusters).map LogCluster.template).getD []
      return { group with
        signature := fns.xxh3 (utf8 template)
        drain3Template := some (String.ofList template)
        drain3ClusterId := some cid }

def dedupResidualBucket (n : Nat) (bucketGroups : List DedupGroup) : Option (List DedupGroup) :=
  let merged := bucketGroups.filter (·.count > 1)
  let residuals := bucketGroups.filter (! ·.count > 1)
  let bucketTotal := (bucketGroups.map DedupGroup.count).sum
  if residuals.length < 2 ∨ bucketTotal = 0 then some (merged ++ residuals)
  else do
    let engine := Drain.new (drainConfig drain (residuals.length / 2))
    let (engine, drainGroups) ← assignClusters order [3, n] 0 residuals engine []
    let clustered ← (order.iter [2, n] drainGroups).mapM (mergeCluster fns engine residuals)
    return clustered ++ merged

def dedupResiduals (groups : List DedupGroup) : Option (List DedupGroup) := do
  let buckets := HashMap.groupBy DedupGroup.bucketKey groups
  let results ← (order.iter [1] buckets).zipIdx.mapM fun ((_, bucketGroups), n) =>
      dedupResidualBucket fns order drain n bucketGroups
  return results.flatten

structure CollapseCandidate where
  bucketKey : BucketKey
  signature : UInt64
  canonicalBody : Option String
  bodyShape : Option String
  record : FlatRecord

def CollapseCandidate.fromRecord (record : FlatRecord)
    (bucketKey : BucketKey) (matchMode : DedupMatchMode) : CollapseCandidate :=
  match matchMode with
  | .exact =>
    { bucketKey, signature := fns.hash record.body, canonicalBody := none
      bodyShape := none, record }
  | .hash2 | .full =>
    let (canonicalBody, bodyShape) := fns.canonicaliseBody record.body
    { bucketKey, signature := fns.hash canonicalBody
      canonicalBody := some canonicalBody, bodyShape := some bodyShape
      record }

def CollapseCandidate.intoGroup (self : CollapseCandidate) : DedupGroup :=
  { DedupGroup.new self.bucketKey self.signature self.record with
    canonicalBody := self.canonicalBody, bodyShape := self.bodyShape }

def drainMatches (path : List Nat) (group : DedupGroup)
    (candidate : CollapseCandidate) : Option (Option DedupGroup) := do
  let left := (group.drain3Template.or group.canonicalBody).getD group.representative.body
  let right := candidate.canonicalBody.getD candidate.record.body
  let engine := Drain.new (drainConfig drain 4)
  let (_, engine) ← engine.addLogMessage order path left.toList
  let ((cid, isNew), engine) ← engine.addLogMessage order path right.toList
  if isNew then return none
  else
    let template := ((HashMap.get cid engine.clusters).map LogCluster.template).getD []
    return some { group with
      signature := fns.xxh3 (utf8 template)
      drain3Template := some (String.ofList template)
      drain3ClusterId := some cid }

variable (opts : DedupOpts F)

def collapseTarget (n : Nat) (groups : List DedupGroup)
    (candidate : CollapseCandidate) : Option (Option DedupGroup) :=
  match groups.getLast? with
  | none => some none
  | some last =>
    if last.bucketKey ≠ candidate.bucketKey then some none
    else if last.signature = candidate.signature then some (some last)
    else if opts.matchMode = .full then
      drainMatches fns order opts.drain [4, n] last candidate
    else some none

def collapseStep (n : Nat) (groups : List DedupGroup)
    (record : FlatRecord) : Option (List DedupGroup) := do
  let bucketKey := BucketKey.fromRecord record opts.bucketKey
  let candidate := CollapseCandidate.fromRecord fns record bucketKey opts.matchMode
  match ← collapseTarget fns order opts n groups candidate with
  | some last => return groups.set (groups.length - 1) (last.absorb candidate.record)
  | none => return groups ++ [candidate.intoGroup]

def collapseDedup (records : List FlatRecord) : Option (List DedupGroup) :=
  records.zipIdx.foldlM (fun groups (record, n) => collapseStep fns order opts n groups record) []

def dedupGroups (records : List FlatRecord) : Option (List DedupGroup) :=
  match opts.mode with
  | .distinct =>
    let bucketKey := match opts.mode.bucketPolicy with
      | .global => .global
      | .requested => opts.bucketKey
    let buckets := bucketGroup records bucketKey
    let groups := exactDedup fns order buckets
    let groups := if opts.matchMode.rank ≥ DedupMatchMode.hash2.rank then
        canonDedup fns groups
      else groups
    if opts.matchMode.rank ≥ DedupMatchMode.full.rank then
      dedupResiduals fns order opts.drain groups
    else some groups
  | .collapse => collapseDedup fns order opts records

end

end Logjet.Ljx
