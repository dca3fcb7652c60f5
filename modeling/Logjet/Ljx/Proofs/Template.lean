/-
The templates of the miner: each generalises what joined it, and a message
that one generalises is found again.
-/
import Logjet.Lib.Transition
import Logjet.Ljx.Proofs.Drain3

namespace Logjet.Ljx

open List Transition

inductive Node.Holds (id : Int) : Node → Prop
  | atNode {children : List (Text × Node)} {clusterIds : List Int}
      (h : id ∈ clusterIds) : Node.Holds id (.mk children clusterIds)
  | inChild {children : List (Text × Node)} {clusterIds : List Int}
      {key : Text} {child : Node} (hchild : (key, child) ∈ children)
      (h : child.Holds id) : Node.Holds id (.mk children clusterIds)

namespace Node

variable {id : Int} {node child : Node} {key : Text}

theorem not_holds_new : ¬ Node.new.Holds id := by
  rintro (h | h)
  · cases h
  · cases h

theorem Holds.of_ids (h : id ∈ node.clusterIds) : node.Holds id := by
  obtain ⟨children, clusterIds⟩ := node
  exact .atNode h

theorem Holds.of_entry (hmem : (key, child) ∈ node.children)
    (h : child.Holds id) : node.Holds id := by
  obtain ⟨children, clusterIds⟩ := node
  exact .inChild hmem h

theorem Holds.of_child (hchild : node.child key = some child)
    (h : child.Holds id) : node.Holds id := .of_entry (HashMap.mem_of_get hchild) h

mutual

theorem mem_collectClusterIds (order : HashOrder) (path : List Nat) :
    ∀ node : Node, id ∈ node.collectClusterIds order path ↔ node.Holds id
  | .mk children clusterIds => by
      have hchildren := mem_collectChildren order path 0 children
      rw [collectClusterIds, mem_append, mem_flatMap]
      simp only [(order.perm _ _).mem_iff]
      rw [hchildren]
      constructor
      · rintro (h | ⟨entry, hentry, h⟩)
        · exact .atNode h
        · exact .inChild hentry h
      · rintro (h | ⟨hchild, h⟩)
        · exact .inl h
        · exact .inr ⟨_, hchild, h⟩

theorem mem_collectChildren (order : HashOrder) (path : List Nat) :
    ∀ (i : Nat) (children : List (Text × Node)),
      (∃ entry ∈ collectChildren order path i children, id ∈ entry.2)
        ↔ ∃ entry ∈ children, entry.2.Holds id
  | _, [] => by simp [collectChildren]
  | i, (key, node) :: children => by
      have hnode := mem_collectClusterIds order (path ++ [i]) node
      have hrest := mem_collectChildren order path (i + 1) children
      simp only [collectChildren, exists_mem_cons_iff, hnode, hrest]

end

theorem holds_setChild_of_child (h : child.Holds id) : (node.setChild key child).Holds id :=
  .inChild (HashMap.mem_of_get (HashMap.get_insert_self key child _)) h

theorem holds_setChild_of_holds (h : node.Holds id)
    (hold : ∀ old, node.child key = some old → old.Holds id →
      child.Holds id) : (node.setChild key child).Holds id := by
  cases h with
  | atNode hid => exact .atNode hid
  | @inChild children clusterIds key' child' hmem hchild =>
    rcases HashMap.mem_insert_of_mem key child hmem with hstays | ⟨rfl, hget⟩
    · exact .inChild hstays hchild
    · exact holds_setChild_of_child (hold child' hget hchild)

theorem holds_of_setChild (h : (node.setChild key child).Holds id) :
    node.Holds id ∨ child.Holds id := by
  obtain ⟨children, clusterIds⟩ := node
  cases h with
  | atNode hid => exact .inl (.atNode hid)
  | inChild hmem hchild =>
    rcases HashMap.mem_insert hmem with heq | hmem
    · cases heq
      exact .inr hchild
    · exact .inl (.inChild hmem hchild)

end Node

namespace Similarity

/-- What is used of the arithmetic: exact ratios have it, and `f64` where no
NaN takes part. -/
class Lawful (F : Type) [Similarity F] : Prop where
  ge_trans : ∀ {a b c : F}, ge a b = true → ge b c = true → ge a c = true
  ge_of_lt : ∀ {a b : F}, lt a b = true → ge b a = true
  ge_of_eq : ∀ {a b : F}, eq a b = true → ge a b = true
  ge_of_not_lt : ∀ {a b : F}, ¬ lt a b = true → ge a b = true
  div_self : ∀ {n : Int}, 0 < n → div (ofInt n) (ofInt n) = (ofInt 1 : F)
  below_one : ¬ ge (ofInt (-1)) (ofInt 1 : F) = true

theorem Lawful.ge_refl {F : Type} [Similarity F] [Lawful F] (a : F) : ge a a = true := by
  by_cases h : lt a a = true
  · exact ge_of_lt h
  · exact ge_of_not_lt h

theorem rat_div_self {n : Int} (h : 0 < n) : (n : Rat) / n = ((1 : Int) : Rat) := by
  have hne : (n : Rat) ≠ 0 := Int.cast_ne_zero.mpr (Int.ne_of_gt h)
  exact div_self hne

instance : Lawful Rat where
  ge_trans h h' := decide_eq_true (le_trans (of_decide_eq_true h') (of_decide_eq_true h))
  ge_of_lt h := decide_eq_true (le_of_lt (of_decide_eq_true h))
  ge_of_eq h := decide_eq_true (le_of_eq (of_decide_eq_true h).symm)
  ge_of_not_lt h := decide_eq_true (not_lt.mp fun hlt => h (decide_eq_true hlt))
  div_self := rat_div_self
  below_one := by decide

end Similarity

open Similarity

namespace Drain

section Tree

variable {F : Type} {self : Drain F} {cluster : LogCluster} {tokenCount : Nat} {id : Int}

variable {tokens : List Text} {depth : Int} {node node' : Node} {n : Nat} {d' : Drain F}

theorem addBelow_holds
    (hrun : self.addBelow cluster tokenCount depth tokens node = some node') :
    (node'.Holds id → node.Holds id ∨ id = cluster.clusterId)
      ∧ (node.Holds id → self.Known id → node'.Holds id) := by
  induction tokens generalizing depth node node' with
  | nil =>
    cases hrun
    exact ⟨.inl, fun h _ => h⟩
  | cons token tokens ih =>
    rw [addBelow] at hrun
    split at hrun
    · cases hrun
      obtain ⟨children, clusterIds⟩ := node
      constructor
      · intro h
        cases h with
        | atNode hid =>
          rcases mem_snoc.mp hid with hid | hid
          · exact .inl (.atNode (mem_filter.mp hid).1)
          · exact .inr hid
        | inChild hmem hchild => exact .inl (.inChild hmem hchild)
      · intro h hknown
        cases h with
        | atNode hid =>
          exact .atNode (mem_append_left _ (mem_filter.mpr ⟨hid, hknown⟩))
        | inChild hmem hchild => exact .inChild hmem hchild
    · obtain ⟨key, hkey, hrest⟩ := Option.bind_eq_some_iff.mp hrun
      obtain ⟨child, hchild, hset⟩ := Option.bind_eq_some_iff.mp hrest
      cases hset
      obtain ⟨hadds, hkeeps⟩ := ih hchild
      constructor
      · intro h
        rcases Node.holds_of_setChild h with h | h
        · exact .inl h
        · rcases hadds h with h | h
          · cases hc : node.child key with
            | none =>
              rw [hc] at h
              exact absurd h Node.not_holds_new
            | some old =>
              rw [hc] at h
              exact .inl (Node.Holds.of_child hc h)
          · exact .inr h
      · intro h hknown
        refine Node.holds_setChild_of_holds h ?_
        intro old hold hin
        refine hkeeps ?_ hknown
        rw [hold]
        exact hin

theorem addBelow_adds (hne : tokens ≠ [])
    (hdepth : depth + tokens.length = tokenCount + 1)
    (hrun : self.addBelow cluster tokenCount depth tokens node
      = some node') : node'.Holds cluster.clusterId := by
  induction tokens generalizing depth node node' with
  | nil => exact absurd rfl hne
  | cons token tokens ih =>
    rw [addBelow] at hrun
    rw [length_cons] at hdepth
    split at hrun
    · cases hrun
      exact .atNode (mem_append_right _ (mem_singleton.mpr rfl))
    next hleaf =>
      obtain ⟨key, hkey, hrest⟩ := Option.bind_eq_some_iff.mp hrun
      obtain ⟨child, hchild, hset⟩ := Option.bind_eq_some_iff.mp hrest
      cases hset
      have hmore : tokens ≠ [] := by
        rintro rfl
        simp only [length_nil] at hdepth
        omega
      exact Node.holds_setChild_of_child (ih hmore (by push_cast at hdepth; omega) hchild)

def layer (d : Drain F) (n : Nat) : Node := (d.root.child (countKey n)).getD .new

theorem countKey_injective {m : Nat} (h : countKey n = countKey m) : n = m := by
  rw [countKey, countKey, Nat.toList_repr, Nat.toList_repr] at h
  have hback := congrArg (fun text => Nat.ofDigitChars 10 text 0) h
  simpa [Nat.ofDigitChars_toDigits] using hback

theorem addToPrefixTree_inv (hrun : self.addToPrefixTree cluster = some d') :
    ∃ first,
      d' = { self with
        root := self.root.setChild
          (countKey cluster.templateTokens.length) first }
      ∧ (cluster.templateTokens.length = 0 ∧ first = .mk (self.layer 0).children [cluster.clusterId]
        ∨ cluster.templateTokens.length ≠ 0 ∧ self.addBelow cluster cluster.templateTokens.length 1
            cluster.templateTokens (self.layer cluster.templateTokens.length) = some first) := by
  unfold addToPrefixTree at hrun
  by_cases hzero : cluster.templateTokens.length = 0
  · rw [if_pos hzero] at hrun
    cases hrun
    refine ⟨_, rfl, .inl ⟨hzero, ?_⟩⟩
    rw [hzero]
    rfl
  · rw [if_neg hzero] at hrun
    obtain ⟨first, hfirst, hset⟩ := Option.bind_eq_some_iff.mp hrun
    cases hset
    exact ⟨first, rfl, .inr ⟨hzero, hfirst⟩⟩

theorem layer_setChild_self :
    Drain.layer { self with root := self.root.setChild (countKey n) node } n = node := by
  simp [layer, Node.child, Node.setChild, Node.children, HashMap.get_insert_self]

theorem layer_setChild_of_ne {n m : Nat} {node : Node} (h : m ≠ n) :
    Drain.layer { self with root := self.root.setChild (countKey n) node } m = self.layer m := by
  have hkey : countKey m ≠ countKey n := mt countKey_injective h
  simp [layer, Node.child, Node.setChild, Node.children, HashMap.get_insert_of_ne hkey]

structure Filed (d d' : Drain F) (cluster : LogCluster) : Prop where
  rest : ∃ root, d' = { d with root }
  new : (d'.layer cluster.templateTokens.length).Holds cluster.clusterId
  added : ∀ n id, (d'.layer n).Holds id → (d.layer n).Holds id
    ∨ n = cluster.templateTokens.length ∧ id = cluster.clusterId
  kept : ∀ n id, (d.layer n).Holds id → d.Known id →
    n = cluster.templateTokens.length → n = 0 ∨ (d'.layer n).Holds id
  others : ∀ n, n ≠ cluster.templateTokens.length → d'.layer n = d.layer n

theorem addToPrefixTree_filed (hrun : self.addToPrefixTree cluster = some d') :
    Filed self d' cluster := by
  obtain ⟨first, rfl, hfirst⟩ := addToPrefixTree_inv hrun
  have hother := fun n h => @layer_setChild_of_ne F self cluster.templateTokens.length n first h
  suffices hlayer : first.Holds cluster.clusterId ∧ (∀ id, first.Holds id → (self.layer
          cluster.templateTokens.length).Holds id ∨ id = cluster.clusterId)
      ∧ ∀ id, (self.layer cluster.templateTokens.length).Holds id → self.Known id →
          cluster.templateTokens.length = 0 ∨ first.Holds id by
    obtain ⟨hnew, hadded, hkept⟩ := hlayer
    refine ⟨⟨_, rfl⟩, ?_, ?_, ?_, hother⟩
    · rw [layer_setChild_self]
      exact hnew
    · intro n id h
      by_cases hn : n = cluster.templateTokens.length
      · subst hn
        rw [layer_setChild_self] at h
        exact (hadded id h).imp_right fun hid => ⟨rfl, hid⟩
      · rw [hother n hn] at h
        exact .inl h
    · rintro n id h hknown rfl
      rw [layer_setChild_self]
      exact hkept id h hknown
  rcases hfirst with ⟨hzero, rfl⟩ | ⟨hzero, hbelow⟩
  · refine ⟨.atNode (mem_singleton.mpr rfl), ?_, fun _ _ _ => .inl hzero⟩
    intro id h
    rw [hzero]
    cases h with
    | atNode hid => exact .inr (mem_singleton.mp hid)
    | inChild hmem hchild => exact .inl (Node.Holds.of_entry hmem hchild)
  · have hne : cluster.templateTokens ≠ [] := fun h => hzero (congrArg List.length h)
    refine ⟨addBelow_adds hne (by omega) hbelow, ?_, ?_⟩
    · intro id
      exact (addBelow_holds hbelow).1
    · intro id h hknown
      exact .inr ((addBelow_holds hbelow).2 h hknown)

theorem walk_holds [Similarity F]
    (hrun : self.walk tokenCount depth tokens node = some node')
    (h : node'.Holds id) : node.Holds id := by
  induction tokens generalizing depth node with
  | nil =>
    cases hrun
    exact h
  | cons token tokens ih =>
    rw [walk] at hrun
    split at hrun
    · cases hrun
      exact h
    · split at hrun
      next child hchild => exact .of_child hchild (ih hrun)
      next =>
        split at hrun
        next child hchild => exact .of_child hchild (ih hrun)
        next => cases hrun

end Tree

def Generalises (template tokens : List Text) : Prop :=
  List.Forall₂ (fun t w => t ≠ "<*>".toList → t = w) template tokens

section Templates

variable {template tokens words : List Text}

theorem createTemplate_cons (t u : Text) (template tokens : List Text) :
    createTemplate (u :: tokens) (t :: template) = (if u = t then t else "<*>".toList)
        :: createTemplate tokens template := rfl

theorem Generalises.createTemplate (h : Generalises template words)
    (hlen : template.length = tokens.length) :
    Generalises (createTemplate tokens template) words := by
  induction h generalizing tokens with
  | nil => exact .nil
  | @cons t w template words hfirst _ ih =>
    cases tokens with
    | nil => cases hlen
    | cons u tokens =>
      rw [createTemplate_cons]
      refine .cons ?_ (ih (Nat.succ.inj hlen))
      split
      · exact hfirst
      · exact fun hne => absurd rfl hne

theorem generalises_createTemplate (hlen : template.length = tokens.length) :
    Generalises (createTemplate tokens template) tokens := by
  induction template generalizing tokens with
  | nil =>
    cases tokens with
    | nil => exact .nil
    | cons u tokens => cases hlen
  | cons t template ih =>
    cases tokens with
    | nil => cases hlen
    | cons u tokens =>
      rw [createTemplate_cons]
      refine .cons ?_ (ih (Nat.succ.inj hlen))
      split
      next heq => exact fun _ => heq.symm
      next => exact fun hne => absurd rfl hne

theorem generalises_self (tokens : List Text) : Generalises tokens tokens :=
  forall₂_same.mpr fun _ _ _ => rfl

theorem Generalises.counts (h : Generalises template tokens) (sim param : Int) :
    let counted := (template.zip tokens).foldl (fun (simTokens, paramCount) (t1, t2) =>
        if t1 = "<*>".toList then (simTokens, paramCount + 1)
        else if t1 = t2 then (simTokens + 1, paramCount)
        else (simTokens, paramCount)) (sim, param)
    counted.1 + counted.2 = sim + param + template.length := by
  induction h generalizing sim param with
  | nil => simp
  | @cons t w template words hfirst _ ih =>
    rw [zip_cons_cons, foldl_cons, length_cons]
    dsimp only
    split
    · have hrest := ih sim (param + 1)
      dsimp only at hrest
      omega
    next hne =>
      rw [if_pos (hfirst hne)]
      have hrest := ih (sim + 1) param
      dsimp only at hrest
      omega

theorem Generalises.seqDistance_eq_one {F : Type} [Similarity F] [Lawful F]
    (h : Generalises template tokens) :
    (seqDistance (F := F) template tokens "<*>".toList true).1 = ofInt 1 := by
  have hlen : template.length = tokens.length := List.Forall₂.length_eq h
  unfold seqDistance
  rw [if_neg (not_not.mpr hlen)]
  by_cases hempty : template.isEmpty = true
  · rw [if_pos hempty]
  · rw [if_neg hempty]
    have hcounts := h.counts 0 0
    have hpos : 0 < (template.length : Int) := by
      rw [isEmpty_iff_length_eq_zero] at hempty
      omega
    rw [Int.zero_add, Int.zero_add] at hcounts
    refine Eq.trans ?_ (Lawful.div_self hpos)
    exact congrArg (fun n => div (ofInt n)
      (ofInt (template.length : Int))) hcounts

end Templates

section Search

variable {F : Type} [Similarity F] {self : Drain F} {order : HashOrder}
  {path : List Nat} {tokens : List Text} {cid : Int}

theorem fastMatch_mem {candidateIds : List Int} {includeParams : Bool}
    (h : self.fastMatch candidateIds tokens includeParams = some cid) : cid ∈ candidateIds := by
  have hfold : ∀ (ids : List Int) (best : Best F),
      ∀ cid ∈ (ids.foldl (self.consider tokens includeParams) best).id,
        cid ∈ best.id ∨ cid ∈ ids := by
    intro ids
    induction ids with
    | nil => exact fun _ _ h => .inl h
    | cons c ids ih =>
      intro best cid hcid
      rcases ih _ cid hcid with hbest | hmem
      · unfold consider at hbest
        split at hbest
        · exact .inl hbest
        · dsimp only at hbest
          split at hbest
          · cases hbest
            exact .inr mem_cons_self
          · exact .inl hbest
      · exact .inr (mem_cons_of_mem _ hmem)
  unfold fastMatch at h
  dsimp only at h
  split at h
  · rcases hfold _ _ cid h with hnone | hmem
    · cases hnone
    · exact hmem
  · cases h

theorem matched_holds (h : self.matched order path tokens = some cid) :
    (self.layer tokens.length).Holds cid := by
  unfold matched at h
  rw [Option.or_eq_some_iff] at h
  rcases h with h | ⟨-, h⟩
  · unfold treeSearch at h
    split at h
    · cases h
    next firstLayer hfirst =>
      rw [layer, hfirst, Option.getD_some]
      split at h
      · exact .of_ids (mem_of_mem_head? h)
      · split at h
        · cases h
        next node hnode => exact walk_holds hnode (.of_ids (fastMatch_mem h))
  · have hmem := fastMatch_mem h
    unfold getClusterIdsForSeqLen at hmem
    split at hmem
    · cases hmem
    next current hcurrent =>
      rw [layer, hcurrent, Option.getD_some]
      exact (Node.mem_collectClusterIds order _ current).mp hmem

end Search

section Found

variable {F : Type} [Similarity F] [Lawful F] {self : Drain F}
  {order : HashOrder} {path : List Nat} {tokens : List Text} {cid : Int}
  {cluster : LogCluster} {includeParams : Bool}

theorem consider_best (best : Best F) (c : Int) :
    ge (self.consider tokens includeParams best c).sim best.sim
      ∧ (∀ cluster, HashMap.get c self.clusters = some cluster →
        ge (self.consider tokens includeParams best c).sim (seqDistance (F := F)
          cluster.templateTokens tokens self.paramStr includeParams).1)
      ∧ ((self.consider tokens includeParams best c).id = none →
        self.consider tokens includeParams best c = best) := by
  unfold consider
  cases hget : HashMap.get c self.clusters with
  | none =>
    refine ⟨Lawful.ge_refl _, ?_, fun _ => rfl⟩
    rintro cluster ⟨⟩
  | some found =>
    dsimp only
    split
    next hbetter =>
      rw [Bool.or_eq_true, Bool.and_eq_true] at hbetter
      refine ⟨?_, ?_, ?_⟩
      · rcases hbetter with hlt | ⟨heq, -⟩
        · exact Lawful.ge_of_lt hlt
        · exact Lawful.ge_of_eq heq
      · rintro cluster ⟨⟩
        exact Lawful.ge_refl _
      · intro hnone
        cases hnone
    next hnot =>
      rw [Bool.or_eq_true, not_or] at hnot
      refine ⟨Lawful.ge_refl _, ?_, fun _ => rfl⟩
      rintro cluster ⟨⟩
      exact Lawful.ge_of_not_lt hnot.1

theorem foldl_consider (ids : List Int) (best : Best F) :
    let last := ids.foldl (self.consider tokens includeParams) best
    ge last.sim best.sim
      ∧ (∀ c ∈ ids, ∀ cluster, HashMap.get c self.clusters = some cluster →
        ge last.sim (seqDistance (F := F) cluster.templateTokens tokens self.paramStr
          includeParams).1)
      ∧ (last.id = none → last = best) := by
  induction ids generalizing best with
  | nil =>
      refine ⟨Lawful.ge_refl _, ?_, fun _ => rfl⟩
      rintro c ⟨⟩
  | cons c ids ih =>
      obtain ⟨hkeeps, hcandidate, hsame⟩ :=
        @consider_best F _ _ self tokens includeParams best c
      obtain ⟨hrest, hothers, hlast⟩ := ih
        (self.consider tokens includeParams best c)
      refine ⟨Lawful.ge_trans hrest hkeeps, ?_, ?_⟩
      · intro c' hc' cluster hcluster
        rcases mem_cons.mp hc' with rfl | hc'
        · exact Lawful.ge_trans hrest (hcandidate cluster hcluster)
        · exact hothers c' hc' cluster hcluster
      · intro hnone
        have hfirst := hlast hnone
        rw [foldl_cons, hfirst] at hnone ⊢
        exact hsame hnone

theorem matched_isSome (hparam : self.paramStr = "<*>".toList)
    (hsim : ge (ofInt 1) self.simTh) (hfiled : (self.layer tokens.length).Holds cid)
    (hcluster : HashMap.get cid self.clusters = some cluster)
    (hgeneral : Generalises cluster.templateTokens tokens) :
    (self.matched order path tokens).isSome := by
  have hmem : cid ∈ self.getClusterIdsForSeqLen order path tokens.length := by
    unfold getClusterIdsForSeqLen
    unfold layer at hfiled
    cases hchild : self.root.child (countKey tokens.length) with
    | none =>
      rw [hchild] at hfiled
      exact absurd hfiled Node.not_holds_new
    | some current =>
      rw [hchild] at hfiled
      exact (Node.mem_collectClusterIds order _ current).mpr hfiled
  have hone := hgeneral.seqDistance_eq_one (F := F)
  obtain ⟨-, hbest, hlast⟩ :=
    @foldl_consider F _ _ self tokens true
      (self.getClusterIdsForSeqLen order path tokens.length)
      { sim := ofInt (-1), paramCount := -1, id := none }
  have hleast := hbest cid hmem cluster hcluster
  rw [hparam, hone] at hleast
  have hfound : (self.fastMatch (self.getClusterIdsForSeqLen order path
      tokens.length) tokens true).isSome := by
    have hge : ge ((self.getClusterIdsForSeqLen order path tokens.length).foldl
        (self.consider tokens true)
          { sim := ofInt (-1), paramCount := -1, id := none }).sim self.simTh = true :=
      Lawful.ge_trans hleast hsim
    unfold fastMatch
    rw [if_pos hge, Option.isSome_iff_ne_none]
    intro hnone
    rw [hlast hnone] at hleast
    exact absurd hleast Lawful.below_one
  unfold matched
  rw [Option.isSome_or]
  exact Bool.or_eq_true_iff.mpr (.inr hfound)

end Found

def Adds {F : Type} [Similarity F] (d : Drain F) (message : Text × Int) (d' : Drain F) : Prop :=
  ∃ order path isNew, d.addLogMessage order path message.1 = some ((message.2, isNew), d')

/-- Each message is in a cluster that the tree can find again. -/
structure Faithful {F : Type} (cfg : DrainConfig F) (log : List (Text × Int)) (d : Drain F) :
    Prop where
  param : d.paramStr = "<*>".toList
  simTh : d.simTh = cfg.simTh
  delimiters : d.extraDelimiters = cfg.extraDelimiters
  fresh : ∀ id, d.Known id → id ≤ d.nextId
  layers : ∀ n id, (d.layer n).Holds id → ∃ cluster, HashMap.get id d.clusters = some cluster
      ∧ cluster.templateTokens.length = n
  filed : ∀ id cluster, HashMap.get id d.clusters = some cluster →
    (d.layer cluster.templateTokens.length).Holds id
  general : ∀ message ∈ log, ∃ cluster, HashMap.get message.2 d.clusters = some cluster
      ∧ Generalises cluster.templateTokens (d.tokenise message.1)

theorem faithful_new {F : Type} (cfg : DrainConfig F) : Faithful cfg [] (Drain.new cfg) where
  param := rfl
  simTh := rfl
  delimiters := rfl
  fresh := fun id h => absurd h Bool.false_ne_true
  layers := fun n id h => absurd h Node.not_holds_new
  filed := by rintro id cluster ⟨⟩
  general := by rintro message ⟨⟩

section Run

variable {F : Type} [Similarity F] {cfg : DrainConfig F} {log : List (Text × Int)}
  {self d' : Drain F} {order : HashOrder} {path : List Nat}
  {content : Text} {cid : Int} {isNew : Bool}

theorem Faithful.join (h : Faithful cfg log self)
    (hmatched : self.matched order path (self.tokenise content) = some cid) :
    ∃ d', self.addLogMessage order path content = some ((cid, false), d')
      ∧ Faithful cfg (log ++ [(content, cid)]) d' := by
  obtain ⟨cluster, hcluster, hlength⟩ := h.layers _ cid (matched_holds hmatched)
  refine ⟨_, addLogMessage_of_matched hmatched hcluster, ?_⟩
  have hsame : (createTemplate (self.tokenise content)
      cluster.templateTokens).length = cluster.templateTokens.length := by
    rw [createTemplate, length_map, length_zip, hlength, Nat.min_self]
  refine ⟨h.param, h.simTh, h.delimiters, ?_, ?_, ?_, ?_⟩
  · intro id hid
    by_cases heq : id = cid
    · rw [heq]
      exact h.fresh cid (Option.isSome_iff_exists.mpr ⟨_, hcluster⟩)
    · rw [Known, HashMap.get_insert_of_ne heq] at hid
      exact h.fresh id hid
  · intro n id hid
    obtain ⟨old, hold, hn⟩ := h.layers n id hid
    by_cases heq : id = cid
    · subst heq
      rw [hcluster] at hold
      cases hold
      exact ⟨_, HashMap.get_insert_self _ _ _, hsame.trans hn⟩
    · exact ⟨old, (HashMap.get_insert_of_ne heq).trans hold, hn⟩
  · intro id found hfound
    by_cases heq : id = cid
    · subst heq
      rw [HashMap.get_insert_self] at hfound
      cases hfound
      rw [hsame]
      exact h.filed id cluster hcluster
    · rw [HashMap.get_insert_of_ne heq] at hfound
      exact h.filed id found hfound
  · intro message hmem
    rcases mem_snoc.mp hmem with hmem | rfl
    · obtain ⟨old, hold, hgeneral⟩ := h.general message hmem
      by_cases heq : message.2 = cid
      · rw [heq, hcluster] at hold
        cases hold
        rw [heq]
        exact ⟨_, HashMap.get_insert_self _ _ _, hgeneral.createTemplate hlength⟩
      · exact ⟨old, (HashMap.get_insert_of_ne heq).trans hold, hgeneral⟩
    · exact ⟨_, HashMap.get_insert_self _ _ _, generalises_createTemplate hlength⟩

theorem Faithful.matched_isSome [Lawful F] (h : Faithful cfg log self)
    (hsim : ge (ofInt 1) cfg.simTh) {tokens : List Text} {cluster : LogCluster}
    (hcluster : HashMap.get cid self.clusters = some cluster)
    (hgeneral : Generalises cluster.templateTokens tokens) :
    (self.matched order path tokens).isSome := by
  have hfiled := h.filed cid cluster hcluster
  rw [List.Forall₂.length_eq hgeneral] at hfiled
  exact Drain.matched_isSome h.param (h.simTh ▸ hsim) hfiled hcluster hgeneral

theorem Faithful.open_new [Lawful F] (h : Faithful cfg log self) (hsim : ge (ofInt 1) cfg.simTh)
    (hmatched : self.matched order path (self.tokenise content) = none)
    (hrun : self.addLogMessage order path content = some ((cid, isNew), d')) :
    Faithful cfg (log ++ [(content, cid)]) d' := by
  unfold addLogMessage at hrun
  simp only [hmatched] at hrun
  obtain ⟨filedTree, htree, hset⟩ := Option.bind_eq_some_iff.mp hrun
  cases hset
  have hfiled := addToPrefixTree_filed htree
  obtain ⟨⟨root, rfl⟩, hnew, hadded, hkept, hothers⟩ := hfiled
  have hunknown : HashMap.get (self.nextId + 1) self.clusters = none := by
    rw [← Option.not_isSome_iff_eq_none]
    intro hknown
    have := h.fresh _ hknown
    omega
  have hother : ∀ id cluster, HashMap.get id self.clusters = some cluster →
      id ≠ self.nextId + 1 := by
    rintro id cluster hget rfl
    rw [hunknown] at hget
    cases hget
  have hempty : ∀ id, (self.layer 0).Holds id → (self.tokenise content).length ≠ 0 := by
    intro id hid hzero
    obtain ⟨cluster, hcluster, hnil⟩ := h.layers 0 id hid
    have hgeneral : Generalises cluster.templateTokens (self.tokenise content) := by
      rw [length_eq_zero_iff.mp hnil, length_eq_zero_iff.mp hzero]
      exact .nil
    have hsome := @Faithful.matched_isSome F _ cfg log self order path id _ h hsim
      (self.tokenise content) cluster hcluster hgeneral
    rw [hmatched] at hsome
    cases hsome
  refine ⟨h.param, h.simTh, h.delimiters, ?_, ?_, ?_, ?_⟩
  · intro id hid
    by_cases heq : id = self.nextId + 1
    · exact Int.le_of_eq heq
    · rw [Known, HashMap.get_insert_of_ne heq] at hid
      have hold := h.fresh id hid
      exact Int.le_trans hold (Int.le_add_one (Int.le_refl _))
  · intro n id hid
    rcases hadded n id hid with hold | ⟨rfl, rfl⟩
    · obtain ⟨cluster, hcluster, hn⟩ := h.layers n id hold
      have hne := hother id cluster hcluster
      exact ⟨cluster, (HashMap.get_insert_of_ne hne).trans hcluster, hn⟩
    · exact ⟨_, HashMap.get_insert_self _ _ _, rfl⟩
  · intro id cluster hget
    by_cases heq : id = self.nextId + 1
    · subst heq
      rw [HashMap.get_insert_self] at hget
      cases hget
      exact hnew
    · rw [HashMap.get_insert_of_ne heq] at hget
      have hold := h.filed id cluster hget
      have hknown : self.Known id := Option.isSome_iff_exists.mpr ⟨cluster, hget⟩
      by_cases hn : cluster.templateTokens.length = (self.tokenise content).length
      · rcases hkept _ id hold hknown hn with hzero | hstays
        · rw [hzero] at hold hn
          exact absurd hn.symm (hempty id hold)
        · exact hstays
      · have hlayer := hothers _ hn
        exact hlayer ▸ hold
  · intro message hmem
    rcases mem_snoc.mp hmem with hmem | rfl
    · obtain ⟨cluster, hcluster, hgeneral⟩ := h.general message hmem
      have hne := hother _ cluster hcluster
      exact ⟨cluster, (HashMap.get_insert_of_ne hne).trans hcluster, hgeneral⟩
    · exact ⟨_, HashMap.get_insert_self _ _ _, generalises_self _⟩

theorem Faithful.step [Lawful F] (h : Faithful cfg log self) (hsim : ge (ofInt 1) cfg.simTh)
    {message : Text × Int} (hstep : self.Adds message d') : Faithful cfg (log ++ [message]) d' := by
  obtain ⟨content, cid⟩ := message
  obtain ⟨order, path, isNew, hrun⟩ := hstep
  cases hmatched : self.matched order path (self.tokenise content) with
  | none => exact h.open_new hsim hmatched hrun
  | some found =>
    obtain ⟨d₁, hjoin, hfaithful⟩ := h.join hmatched
    rw [hjoin] at hrun
    cases hrun
    exact hfaithful

theorem faithful_run [Lawful F] (hsim : ge (ofInt 1) cfg.simTh)
    (hrun : Run Adds (Drain.new cfg) log d') : Faithful cfg log d' := by
  induction hrun with
  | nil => exact faithful_new cfg
  | snoc _ hstep ih => exact ih.step hsim hstep

theorem sound_run (hmax : 0 < cfg.maxChildren)
    (hrun : Run Adds (Drain.new cfg) log d') : d'.Sound := by
  refine hrun.invariant (sound_new hmax) ?_
  rintro d message d₁ hsound ⟨order, path, isNew, hadd⟩
  obtain ⟨result, d₂, hadd', hsound'⟩ := addLogMessage_returns hsound order path message.1
  rw [hadd] at hadd'
  cases hadd'
  exact hsound'

end Run

end Drain

open Drain

/-- A message fits its cluster's template, then and ever after. -/
theorem drain_templates_faithful {F : Type} [Similarity F] [Lawful F]
    (cfg : DrainConfig F) (hsim : ge (ofInt 1) cfg.simTh = true)
    (log : List (Text × Int)) (d : Drain F)
    (hrun : Run Adds (Drain.new cfg) log d) : (∀ message ∈ log,
      (∃ cluster, HashMap.get message.2 d.clusters = some cluster
        ∧ Generalises cluster.templateTokens (d.tokenise message.1)) ∧ ∀ order path, ∃ cid d',
        d.addLogMessage order path message.1 = some ((cid, false), d'))
    ∧ (0 < cfg.maxChildren → ∀ order path content,
      (d.addLogMessage order path content).isSome) := by
  have h := faithful_run hsim hrun
  refine ⟨?_, ?_⟩
  · intro message hmem
    obtain ⟨cluster, hcluster, hgeneral⟩ := h.general message hmem
    refine ⟨⟨cluster, hcluster, hgeneral⟩, ?_⟩
    intro order path
    obtain ⟨cid, hmatched⟩ := Option.isSome_iff_exists.mp
      (@Faithful.matched_isSome F _ cfg log d order path message.2 _ h hsim _ cluster hcluster hgeneral)
    obtain ⟨d', hjoin, -⟩ := h.join hmatched
    exact ⟨cid, d', hjoin⟩
  · intro hmax order path content
    obtain ⟨result, d', hadd, -⟩ := addLogMessage_returns (sound_run hmax hrun) order path content
    rw [hadd]
    rfl

def halfConfig : DrainConfig Rat :=
  { depth := 4, simTh := 1 / 2, maxChildren := 100, maxClusters := 4
    extraDelimiters := [], parametrizeNumericTokens := true }

theorem drain_finds_first_again : ∃ d, Run Adds (Drain.new halfConfig)
        [("a b".toList, 1), ("a c".toList, 1)] d ∧ ∀ order path, ∃ cid d',
        d.addLogMessage order path "a b".toList = some ((cid, false), d') := by
  have hfirst : ((Drain.new halfConfig).addLogMessage .insertion []
      "a b".toList).map Prod.fst = some (1, true) := by decide +kernel
  have hsecond : (((Drain.new halfConfig).addLogMessage .insertion []
      "a b".toList).bind fun added => added.2.addLogMessage .insertion []
        "a c".toList).map Prod.fst = some (1, false) := by decide +kernel
  obtain ⟨⟨_, d₁⟩, hadd₁, rfl⟩ := Option.map_eq_some_iff.mp hfirst
  rw [hadd₁, Option.bind_some] at hsecond
  obtain ⟨⟨_, d₂⟩, hadd₂, rfl⟩ := Option.map_eq_some_iff.mp hsecond
  have hrun : Run Adds (Drain.new halfConfig) [("a b".toList, 1), ("a c".toList, 1)] d₂ :=
    .snoc (.snoc .nil ⟨_, _, _, hadd₁⟩) ⟨_, _, _, hadd₂⟩
  refine ⟨d₂, hrun, ?_⟩
  exact ((drain_templates_faithful halfConfig (by decide +kernel) _ d₂
    hrun).1 ("a b".toList, 1) mem_cons_self).2

end Logjet.Ljx
