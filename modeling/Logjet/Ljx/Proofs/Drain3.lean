/-
The miner does not panic: a full node has the wildcard (`Node.Sound`).
-/
import Logjet.Ljx.Drain3

namespace Logjet.Ljx

open List

inductive Node.Sound (param : Text) (max : Int) (known : Int → Prop) : Node → Prop
  | mk {children : List (Text × Node)} {clusterIds : List Int}
      (hroom : (HashMap.get param children).isSome ∨ (children.length : Int) < max)
      (hids : ∀ id ∈ clusterIds, known id)
      (hchildren : ∀ entry ∈ children, entry.2.Sound param max known) :
      Node.Sound param max known (.mk children clusterIds)

namespace Node.Sound

variable {param : Text} {max : Int} {known known' : Int → Prop} {node child : Node} {key : Text}

theorem new (hmax : 0 < max) : Node.new.Sound param max known := .mk (.inr hmax) nofun nofun

theorem room (h : node.Sound param max known) :
    node.hasChild param ∨ (node.children.length : Int) < max := by
  cases h with
  | mk hroom _ _ => exact hroom

theorem ids (h : node.Sound param max known) : ∀ id ∈ node.clusterIds, known id := by
  cases h with
  | mk _ hids _ => exact hids

theorem entries (h : node.Sound param max known) :
    ∀ entry ∈ node.children, entry.2.Sound param max known := by
  cases h with
  | mk _ _ hchildren => exact hchildren

theorem ofChild (h : node.Sound param max known)
    (hc : node.child key = some child) : child.Sound param max known :=
  h.entries _ (HashMap.mem_of_get hc)

theorem childD (h : node.Sound param max known) (hmax : 0 < max) (key : Text) :
    ((node.child key).getD .new).Sound param max known := by
  cases hc : node.child key with
  | none => exact new hmax
  | some child => exact h.ofChild hc

theorem mono (hknown : ∀ id, known id → known' id)
    (h : node.Sound param max known) : node.Sound param max known' := by
  induction h with
  | mk hroom hids _ ih => exact .mk hroom (fun id hid => hknown id (hids id hid)) ih

theorem setChild (h : node.Sound param max known) (hc : child.Sound param max known)
    (hroom : (node.setChild key child).hasChild param
      ∨ ((node.setChild key child).children.length : Int) < max) :
    (node.setChild key child).Sound param max known := by
  refine .mk hroom h.ids ?_
  intro entry hentry
  rcases HashMap.mem_insert hentry with rfl | hentry
  · exact hc
  · exact h.entries entry hentry

end Node.Sound

namespace Node

variable {node child : Node} {key param : Text}

theorem hasChild_setChild (h : node.hasChild param) : (node.setChild key child).hasChild param :=
  HashMap.isSome_get_insert h

theorem length_setChild (node child : Node) (key : Text) :
    (node.setChild key child).children.length
      = node.children.length + if node.hasChild key then 0 else 1 :=
  HashMap.length_insert key child node.children

theorem hasChild_setChild_self (node child : Node) (key : Text) :
    (node.setChild key child).hasChild key := by
  unfold hasChild Node.child setChild
  rw [Node.children, HashMap.get_insert_self]
  rfl

end Node

namespace Drain

variable {F : Type} {self : Drain F}

def Known (self : Drain F) (id : Int) : Prop := (HashMap.get id self.clusters).isSome

structure Sound (d : Drain F) : Prop where
  room : 0 < d.maxChildren
  layers : ∀ entry ∈ d.root.children, entry.2.Sound d.paramStr d.maxChildren d.Known

theorem sound_new {cfg : DrainConfig F} (h : 0 < cfg.maxChildren) : (Drain.new cfg).Sound :=
  ⟨h, nofun⟩

theorem nextKey_returns {known : Int → Prop} {node : Node} (token : Text)
    (h : node.Sound self.paramStr self.maxChildren known) :
    ∃ key, self.nextKey node token = some key ∧ ∀ child,
      (node.setChild key child).hasChild self.paramStr
        ∨ ((node.setChild key child).children.length : Int) < self.maxChildren := by
  unfold nextKey
  split
  · exact ⟨_, rfl, fun child => .inl (node.hasChild_setChild_self child _)⟩
  split
  next htoken =>
    refine ⟨token, rfl, fun child => ?_⟩
    rw [Node.length_setChild, if_pos htoken]
    exact h.room.imp_left Node.hasChild_setChild
  split
  next hparam =>
    split
    · exact ⟨_, rfl, fun child => .inl (Node.hasChild_setChild hparam)⟩
    · exact ⟨_, rfl, fun child => .inl (Node.hasChild_setChild hparam)⟩
  split
  next hless =>
    refine ⟨token, rfl, fun child => .inr ?_⟩
    rw [Node.length_setChild]
    split <;> omega
  split
  · exact ⟨_, rfl, fun child => .inl (node.hasChild_setChild_self child _)⟩
  next _ _ hparam _ _ =>
    rcases h.room with hchild | hlen
    · exact absurd hchild hparam
    · omega

theorem addBelow_returns {cluster : LogCluster} {tokenCount : Nat}
    {known known' : Int → Prop} (hmax : 0 < self.maxChildren) (hknown : ∀ id, known id → known' id)
    (hcluster : known' cluster.clusterId) (tokens : List Text) : ∀ (depth : Int) {node : Node},
      node.Sound self.paramStr self.maxChildren known →
        ∃ node', self.addBelow cluster tokenCount depth tokens node = some node'
          ∧ node'.Sound self.paramStr self.maxChildren known' := by
  induction tokens with
  | nil =>
    intro depth node h
    exact ⟨node, rfl, h.mono hknown⟩
  | cons token tokens ih =>
    intro depth node h
    rw [addBelow]
    split
    · refine ⟨_, rfl, .mk h.room ?_ fun entry hentry => (h.entries entry hentry).mono hknown⟩
      intro id hid
      rcases mem_snoc.mp hid with hid | rfl
      · exact hknown id (h.ids id (mem_filter.mp hid).1)
      · exact hcluster
    · obtain ⟨key, hkey, hroom⟩ := nextKey_returns token h
      obtain ⟨child, hchild, hsound⟩ := ih (depth + 1) (h.childD hmax key)
      refine ⟨node.setChild key child, ?_, ?_⟩
      · simp only [hkey, Option.bind_eq_bind, Option.bind_some, hchild]
        rfl
      · exact (h.mono hknown).setChild hsound (hroom child)

theorem addToPrefixTree_returns {cluster : LogCluster}
    {known : Int → Prop} (hmax : 0 < self.maxChildren) (h : ∀ entry ∈ self.root.children,
      entry.2.Sound self.paramStr self.maxChildren known) :
    ∃ root, self.addToPrefixTree cluster = some { self with root }
      ∧ ∀ entry ∈ root.children, entry.2.Sound self.paramStr self.maxChildren
        fun id => known id ∨ id = cluster.clusterId := by
  have hfirst : ((self.root.child (countKey
      cluster.templateTokens.length)).getD .new).Sound self.paramStr self.maxChildren known := by
    cases hc : self.root.child (countKey cluster.templateTokens.length) with
    | none => exact .new hmax
    | some node => exact h _ (HashMap.mem_of_get hc)
  have hset : ∀ node : Node, node.Sound self.paramStr self.maxChildren
      (fun id => known id ∨ id = cluster.clusterId) → ∀ entry ∈ (self.root.setChild (countKey
        cluster.templateTokens.length) node).children, entry.2.Sound self.paramStr self.maxChildren
          fun id => known id ∨ id = cluster.clusterId := by
    intro node hnode entry hentry
    rcases HashMap.mem_insert hentry with rfl | hentry
    · exact hnode
    · exact (h entry hentry).mono fun _ => .inl
  unfold addToPrefixTree
  by_cases hzero : cluster.templateTokens.length = 0
  · refine ⟨_, ?_, hset (.mk _ [cluster.clusterId]) (.mk hfirst.room ?_ ?_)⟩
    · simp only [hzero, if_true]
      rfl
    · intro id hid
      exact .inr (mem_singleton.mp hid)
    · intro entry hentry
      exact (hfirst.entries entry hentry).mono fun _ => .inl
  · obtain ⟨node, hnode, hsound⟩ := @addBelow_returns _ _ cluster cluster.templateTokens.length _
      (fun id => known id ∨ id = cluster.clusterId) hmax
      (fun _ => .inl) (.inr rfl) cluster.templateTokens 1 _ hfirst
    refine ⟨_, ?_, hset node hsound⟩
    simp only [hzero, if_false, hnode]
    rfl

variable [Similarity F]

variable {tokens : List Text} {includeParams : Bool} {cid : Int} {order : HashOrder}
  {path : List Nat} {content : Text}

theorem consider_known {best : Best F} (h : ∀ cid ∈ best.id, self.Known cid) (c : Int) :
    ∀ cid ∈ (self.consider tokens includeParams best c).id, self.Known cid := by
  unfold consider
  split
  · exact h
  next cluster hcluster =>
    dsimp only
    split
    · intro cid hcid
      cases hcid
      exact Option.isSome_iff_exists.mpr ⟨cluster, hcluster⟩
    · exact h

theorem fastMatch_known {candidateIds : List Int}
    (h : self.fastMatch candidateIds tokens includeParams = some cid) : self.Known cid := by
  have hfold : ∀ (ids : List Int) (best : Best F),
      (∀ cid ∈ best.id, self.Known cid) → ∀ cid ∈ (ids.foldl
        (self.consider tokens includeParams) best).id, self.Known cid := by
    intro ids
    induction ids with
    | nil => exact fun _ h => h
    | cons c ids ih => exact fun best h => ih _ (consider_known h c)
  unfold fastMatch at h
  dsimp only at h
  split at h
  · exact hfold _ _ (by simp) cid h
  · cases h

theorem matched_known (hs : self.Sound)
    (h : self.matched order path tokens = some cid) : self.Known cid := by
  unfold matched at h
  rw [Option.or_eq_some_iff] at h
  rcases h with h | ⟨-, h⟩
  · unfold treeSearch at h
    split at h
    · cases h
    next firstLayer hfirst =>
      split at h
      · exact (hs.layers _ (HashMap.mem_of_get hfirst)).ids _ (mem_of_mem_head? h)
      · split at h
        · cases h
        · exact fastMatch_known h
  · exact fastMatch_known h

theorem addLogMessage_of_matched {cluster : LogCluster}
    (hmatched : self.matched order path (self.tokenise content) = some cid)
    (hcluster : HashMap.get cid self.clusters = some cluster) :
    self.addLogMessage order path content = some ((cid, false),
      { self with
        clusters := HashMap.insert cid
          ⟨cluster.clusterId, createTemplate (self.tokenise content)
            cluster.templateTokens, cluster.size + 1⟩ self.clusters }) := by
  unfold addLogMessage
  simp only [hmatched, hcluster]
  rfl

theorem addLogMessage_of_new {root : Node}
    (hmatched : self.matched order path (self.tokenise content) = none)
    (hroot : addToPrefixTree { self with nextId := self.nextId + 1 }
        (.new (self.nextId + 1) (self.tokenise content))
      = some { self with nextId := self.nextId + 1, root }) :
    self.addLogMessage order path content = some ((self.nextId + 1, true),
      { self with
        nextId := self.nextId + 1
        root
        clusters := HashMap.insert (self.nextId + 1)
          (.new (self.nextId + 1) (self.tokenise content))
          self.clusters }) := by
  unfold addLogMessage
  simp only [hmatched, hroot]
  rfl

theorem addLogMessage_returns (hs : self.Sound) (order : HashOrder)
    (path : List Nat) (content : Text) : ∃ result self', self.addLogMessage order path content
        = some (result, self') ∧ self'.Sound := by
  cases hmatched : self.matched order path (self.tokenise content) with
  | some cid =>
    obtain ⟨cluster, hcluster⟩ := Option.isSome_iff_exists.mp (matched_known hs hmatched)
    refine ⟨_, _, addLogMessage_of_matched hmatched hcluster, hs.room, ?_⟩
    intro entry hentry
    exact (hs.layers entry hentry).mono fun id hid => HashMap.isSome_get_insert hid
  | none =>
    obtain ⟨root, hroot, hsound⟩ := @addToPrefixTree_returns F
      { self with nextId := self.nextId + 1 }
      (.new (self.nextId + 1) (self.tokenise content)) self.Known hs.room hs.layers
    refine ⟨_, _, addLogMessage_of_new hmatched hroot, hs.room, ?_⟩
    intro entry hentry
    refine (hsound entry hentry).mono ?_
    intro id hid
    rcases hid with hid | rfl
    · exact HashMap.isSome_get_insert hid
    · exact Option.isSome_iff_exists.mpr ⟨_, HashMap.get_insert_self _ _ _⟩

end Drain

end Logjet.Ljx
