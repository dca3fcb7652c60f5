/-
The Drain3 log template miner (src/ljx/src/dedup/drain3.rs). The arithmetic
of `f64` is a parameter (`Similarity`), as is the order of the `HashMap`s
(`HashOrder`). An `unwrap` of `None` is `none`.
-/
import Mathlib.Data.Rat.Defs
import Mathlib.Algebra.Order.Field.Rat
import Logjet.Lib.HashMap
import Logjet.Text

namespace Logjet.Ljx

class Similarity (F : Type) where
  ofInt : Int → F
  div : F → F → F
  lt : F → F → Bool
  eq : F → F → Bool
  ge : F → F → Bool

instance : Similarity Rat where
  ofInt n := n
  div a b := a / b
  lt a b := a < b
  eq a b := a = b
  ge a b := a ≥ b

open Similarity

structure DrainConfig (F : Type) where
  depth : Int
  simTh : F
  maxChildren : Int
  maxClusters : Nat
  extraDelimiters : List Text
  parametrizeNumericTokens : Bool

structure LogCluster where
  clusterId : Int
  templateTokens : List Text
  size : Int
  deriving DecidableEq, Repr

def LogCluster.new (id : Int) (tokens : List Text) : LogCluster :=
  { clusterId := id, templateTokens := tokens, size := 1 }

def LogCluster.template (self : LogCluster) : Text := [' '].intercalate self.templateTokens

inductive Node
  | mk (children : List (Text × Node)) (clusterIds : List Int)

namespace Node

def new : Node := .mk [] []

def children : Node → List (Text × Node)
  | .mk children _ => children

def clusterIds : Node → List Int
  | .mk _ clusterIds => clusterIds

def child (self : Node) (key : Text) : Option Node := HashMap.get key self.children

def hasChild (self : Node) (key : Text) : Bool := (self.child key).isSome

def setChild (self : Node) (key : Text) (node : Node) : Node :=
  .mk (HashMap.insert key node self.children) self.clusterIds

mutual

def collectClusterIds (order : HashOrder) (path : List Nat) : Node → List Int
  | .mk children clusterIds =>
    clusterIds ++ (order.iter path (collectChildren order path 0 children)).flatMap Prod.snd

def collectChildren (order : HashOrder) (path : List Nat) :
    Nat → List (Text × Node) → List (Text × List Int)
  | _, [] => []
  | i, (key, node) :: children =>
    (key, node.collectClusterIds order (path ++ [i])) :: collectChildren order path (i + 1) children

end

end Node

def seqDistance {F : Type} [Similarity F] (template tokens : List Text)
    (paramStr : Text) (includeParams : Bool) : F × Int :=
  if template.length ≠ tokens.length then (ofInt 0, 0)
  else if template.isEmpty then (ofInt 1, 0)
  else
    let (simTokens, paramCount) := (template.zip tokens).foldl
      (fun (simTokens, paramCount) (t1, t2) =>
        if t1 = paramStr then (simTokens, paramCount + 1)
        else if t1 = t2 then (simTokens + 1, paramCount)
        else (simTokens, paramCount)) ((0 : Int), (0 : Int))
    let simTokens := if includeParams then simTokens + paramCount else simTokens
    (div (ofInt simTokens) (ofInt template.length), paramCount)

def createTemplate (seq1 seq2 : List Text) : List Text :=
  (seq2.zip seq1).map fun (t2, t1) => if t1 = t2 then t2 else "<*>".toList

def hasNumbers (token : Text) : Bool := token.any Char.isDigit

structure Drain (F : Type) where
  maxNodeDepth : Int
  simTh : F
  maxChildren : Int
  root : Node
  extraDelimiters : List Text
  paramStr : Text
  parametrizeNumericTokens : Bool
  clusters : List (Int × LogCluster)
  nextId : Int

namespace Drain

variable {F : Type} [Similarity F]

omit [Similarity F] in
def new (cfg : DrainConfig F) : Drain F :=
  { maxNodeDepth := max cfg.depth 3 - 2
    simTh := cfg.simTh
    maxChildren := cfg.maxChildren
    root := .new
    extraDelimiters := cfg.extraDelimiters
    paramStr := "<*>".toList
    parametrizeNumericTokens := cfg.parametrizeNumericTokens
    clusters := []
    nextId := 0 }

def tokenise (self : Drain F) (content : Text) : List Text :=
  splitWhitespace (self.extraDelimiters.foldl
    (fun s delim => replaceText delim [' '] s) (trim content))

def countKey (tokenCount : Nat) : Text := (Nat.repr tokenCount).toList

structure Best (F : Type) where
  sim : F
  paramCount : Int
  id : Option Int

def consider (self : Drain F) (tokens : List Text) (includeParams : Bool)
    (best : Best F) (cid : Int) : Best F :=
  match HashMap.get cid self.clusters with
  | none => best
  | some cluster =>
    let (sim, paramCount) := seqDistance cluster.templateTokens tokens self.paramStr includeParams
    if lt best.sim sim
        || (eq sim best.sim && decide (paramCount > best.paramCount)) then
      { sim, paramCount, id := some cid }
    else best

def fastMatch (self : Drain F) (candidateIds : List Int)
    (tokens : List Text) (includeParams : Bool) : Option Int :=
  let best := candidateIds.foldl (self.consider tokens includeParams)
    { sim := ofInt (-1), paramCount := -1, id := none }
  if ge best.sim self.simTh then best.id else none

def walk (self : Drain F) (tokenCount : Nat) : Int → List Text → Node → Option Node
  | _, [], node => some node
  | depth, token :: tokens, node =>
    if depth ≥ self.maxNodeDepth ∨ depth ≥ tokenCount then some node
    else
      match node.child token with
      | some child => walk self tokenCount (depth + 1) tokens child
      | none =>
        match node.child self.paramStr with
        | some child => walk self tokenCount (depth + 1) tokens child
        | none => none

def treeSearch (self : Drain F) (tokens : List Text) : Option Int :=
  match self.root.child (countKey tokens.length) with
  | none => none
  | some firstLayer =>
    if tokens.length = 0 then firstLayer.clusterIds.head?
    else
      match self.walk tokens.length 1 tokens firstLayer with
      | none => none
      | some node => self.fastMatch node.clusterIds tokens false

def getClusterIdsForSeqLen (self : Drain F) (order : HashOrder)
    (path : List Nat) (seqLen : Nat) : List Int :=
  match self.root.child (countKey seqLen) with
  | none => []
  | some current => current.collectClusterIds order (path ++ [seqLen])

def nextKey (self : Drain F) (node : Node) (token : Text) : Option Text :=
  if !node.hasChild token && self.parametrizeNumericTokens
      && hasNumbers token then some self.paramStr
  else if node.hasChild token then some token
  else if node.hasChild self.paramStr then
    if (node.children.length : Int) < self.maxChildren then some token
    else some self.paramStr
  else if (node.children.length : Int) + 1 < self.maxChildren then some token
  else if (node.children.length : Int) + 1 = self.maxChildren then
    some self.paramStr
  else none

def addBelow (self : Drain F) (cluster : LogCluster) (tokenCount : Nat) :
    Int → List Text → Node → Option Node
  | _, [], node => some node
  | depth, token :: tokens, node =>
    if depth ≥ self.maxNodeDepth ∨ depth ≥ tokenCount then
      some (.mk node.children (node.clusterIds.filter
          (fun id => (HashMap.get id self.clusters).isSome) ++ [cluster.clusterId]))
    else do
      let key ← self.nextKey node token
      let child ← addBelow self cluster tokenCount (depth + 1) tokens ((node.child key).getD .new)
      return node.setChild key child

def addToPrefixTree (self : Drain F) (cluster : LogCluster) : Option (Drain F) := do
  let tokenCount := cluster.templateTokens.length
  let countKey := countKey tokenCount
  let firstLayer := (self.root.child countKey).getD .new
  let firstLayer ← if tokenCount = 0 then
      some (Node.mk firstLayer.children [cluster.clusterId])
    else self.addBelow cluster tokenCount 1 cluster.templateTokens firstLayer
  return { self with root := self.root.setChild countKey firstLayer }

def matched (self : Drain F) (order : HashOrder) (path : List Nat)
    (tokens : List Text) : Option Int :=
  (self.treeSearch tokens).or
    (self.fastMatch (self.getClusterIdsForSeqLen order path tokens.length) tokens true)

def addLogMessage (self : Drain F) (order : HashOrder) (path : List Nat)
    (content : Text) : Option ((Int × Bool) × Drain F) := do
  let tokens := self.tokenise content
  match self.matched order path tokens with
  | some cid =>
    let cluster ← HashMap.get cid self.clusters
    let cluster := { cluster with
      templateTokens := createTemplate tokens cluster.templateTokens
      size := cluster.size + 1 }
    return ((cid, false), { self with clusters := HashMap.insert cid cluster self.clusters })
  | none =>
    let id := self.nextId + 1
    let cluster := LogCluster.new id tokens
    let self ← addToPrefixTree { self with nextId := id } cluster
    return ((id, true), { self with clusters := HashMap.insert id cluster self.clusters })

end Drain

end Logjet.Ljx
