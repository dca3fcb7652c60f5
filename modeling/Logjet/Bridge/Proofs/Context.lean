/-
The context of the log records in a batch: records that join a group may take
over its URLs or overtake a second entry of the scope (`KeepsScope`).
-/
import Mathlib.Data.List.Flatten
import Logjet.Bridge.Proofs.Batcher

namespace Logjet

open List Grouping

structure Context where
  resource : Option Resource
  resourceSchemaUrl : String
  scope : Option InstrumentationScope
  scopeSchemaUrl : String
  deriving DecidableEq, Repr

def ScopeLogs.context (rl : ResourceLogs) (sl : ScopeLogs) : Context :=
  { resource := rl.resource, resourceSchemaUrl := rl.schemaUrl
    scope := sl.scope, scopeSchemaUrl := sl.schemaUrl }

def ScopeLogs.tuples (rl : ResourceLogs) (sl : ScopeLogs) : List (Context × LogRecord) :=
  sl.logRecords.map fun lr => (sl.context rl, lr)

def ResourceLogs.tuples (rl : ResourceLogs) : List (Context × LogRecord) :=
  rl.scopeLogs.flatMap (·.tuples rl)

def ExportLogsServiceRequest.tuples (req : ExportLogsServiceRequest) : List (Context × LogRecord) :=
  req.resourceLogs.flatMap ResourceLogs.tuples

def ResourceLogs.records (rl : ResourceLogs) : List LogRecord :=
  rl.scopeLogs.flatMap ScopeLogs.logRecords

theorem ScopeLogs.map_snd_tuples (rl : ResourceLogs) (sl : ScopeLogs) :
    (sl.tuples rl).map Prod.snd = sl.logRecords := by simp [ScopeLogs.tuples]

def inContext (c : Context) (tuples : List (Context × LogRecord)) : List (Context × LogRecord) :=
  tuples.filter fun t => t.1 = c

theorem inContext_append (c : Context) (a b : List (Context × LogRecord)) :
    inContext c (a ++ b) = inContext c a ++ inContext c b := filter_append ..

theorem ScopeLogs.inContext_tuples (c : Context) (rl : ResourceLogs) (sl : ScopeLogs) :
    inContext c (sl.tuples rl) = if sl.context rl = c then sl.tuples rl else [] := by
  unfold inContext ScopeLogs.tuples
  split
  next h =>
    rw [filter_eq_self]
    intro t ht
    obtain ⟨lr, -, rfl⟩ := mem_map.mp ht
    exact decide_eq_true h
  next h =>
    rw [filter_eq_nil_iff]
    intro t ht
    obtain ⟨lr, -, rfl⟩ := mem_map.mp ht
    simpa using h

def KeepsScope (url : String) (rl : ResourceLogs) (incoming : ScopeLogs) : Prop :=
  incoming.logRecords = [] ∨ rl.schemaUrl = url
      ∧ (∀ sl ∈ rl.scopeLogs.find? fun sl => sl.scope = incoming.scope,
          sl.schemaUrl = incoming.schemaUrl)
      ∧ ∀ sl ∈ behind (fun sl => sl.scope = incoming.scope) rl.scopeLogs,
          sl.context rl = incoming.context rl → sl.logRecords = []

def KeepsScopes (url : String) : List ScopeLogs → ResourceLogs → Prop
  | [], _ => True
  | sl :: more, rl =>
    KeepsScope url rl sl ∧ KeepsScopes url more
        { rl with scopeLogs := OtlpBatcher.mergeScope rl.scopeLogs sl }

def KeepsResource (pending : List ResourceLogs) (incoming : ResourceLogs) : Prop :=
  ∀ rl ∈ pending.find? fun rl => rl.resource = incoming.resource,
    KeepsScopes incoming.schemaUrl incoming.scopeLogs rl

def KeepsResources : List ResourceLogs → List ResourceLogs → Prop
  | [], _ => True
  | rl :: more, pending =>
    KeepsResource pending rl ∧ KeepsResources more (OtlpBatcher.mergeResource pending rl)

def KeepsContext : List (Nat × ExportLogsServiceRequest) → OtlpBatcher → Prop
  | [], _ => True
  | (now, req) :: more, batcher =>
    KeepsResources req.resourceLogs batcher.pending.resourceLogs
      ∧ KeepsContext more (batcher.merge now req)

variable {rl incoming : ResourceLogs} {sl : ScopeLogs} {pending : List ResourceLogs}
  {after before kept sent : List (Context × LogRecord)}

theorem tuples_join {incoming : ScopeLogs} (hscope : sl.scope = incoming.scope)
    (h : incoming.logRecords = [] ∨ sl.schemaUrl = incoming.schemaUrl) : ScopeLogs.tuples rl
        { sl with logRecords := sl.logRecords ++ incoming.logRecords }
      = sl.tuples rl ++ incoming.tuples rl := by
  rcases h with hnone | hurl
  · simp [ScopeLogs.tuples, ScopeLogs.context, hnone]
  · simp [ScopeLogs.tuples, ScopeLogs.context, hscope, hurl]

theorem mergeScope_tuples (hfirst : ∀ g ∈ rl.scopeLogs.find? fun g => g.scope = sl.scope,
      sl.logRecords = [] ∨ g.schemaUrl = sl.schemaUrl)
    (hbehind : ∀ g ∈ behind (fun g => g.scope = sl.scope) rl.scopeLogs,
      sl.logRecords = [] ∨ (g.context rl = sl.context rl → g.logRecords = [])) (c : Context) :
    inContext c ((OtlpBatcher.mergeScope rl.scopeLogs sl).flatMap (·.tuples rl))
      = inContext c rl.tuples ++ inContext c (sl.tuples rl) := by
  apply upsert_filter
  · intro g hg
    have hscope := find?_some hg
    rw [tuples_join (of_decide_eq_true hscope) (hfirst g hg)]
    exact filter_append ..
  · intro g hg
    show inContext c (g.tuples rl) = [] ∨ inContext c (sl.tuples rl) = []
    rw [ScopeLogs.inContext_tuples, ScopeLogs.inContext_tuples]
    by_cases hc : sl.context rl = c
    · rw [if_pos hc]
      rcases hbehind g hg with hnone | hempty
      · exact .inr (by rw [ScopeLogs.tuples, hnone, map_nil])
      · by_cases hg' : g.context rl = c
        · rw [if_pos hg', ScopeLogs.tuples, hempty (hg'.trans hc.symm)]
          exact .inl rfl
        · exact .inl (if_neg hg')
    · exact .inr (if_neg hc)

theorem KeepsScope.tuples (hresource : rl.resource = incoming.resource)
    (h : KeepsScope incoming.schemaUrl rl sl) (c : Context) :
    inContext c ((OtlpBatcher.mergeScope rl.scopeLogs sl).flatMap (·.tuples rl))
      = inContext c rl.tuples ++ inContext c (sl.tuples incoming) := by
  rcases h with hnone | ⟨hurl, hfirst, hbehind⟩
  · rw [mergeScope_tuples (fun _ _ => .inl hnone) (fun _ _ => .inl hnone),
      ScopeLogs.tuples, ScopeLogs.tuples, hnone]
    rfl
  · have hcontext : sl.context rl = sl.context incoming := by
      rw [ScopeLogs.context, hresource, hurl]
      rfl
    rw [mergeScope_tuples (fun g hg => .inr (hfirst g hg)) (fun g hg => .inr (hbehind g hg)),
      ScopeLogs.tuples, ScopeLogs.tuples, hcontext]

theorem KeepsScopes.tuples (scopes : List ScopeLogs) (hresource : rl.resource = incoming.resource)
    (h : KeepsScopes incoming.schemaUrl scopes rl) (c : Context) :
    inContext c ((scopes.foldl OtlpBatcher.mergeScope rl.scopeLogs).flatMap (·.tuples rl))
      = inContext c rl.tuples ++ inContext c (scopes.flatMap (·.tuples incoming)) := by
  induction scopes generalizing rl with
  | nil => exact (append_nil _).symm
  | cons sl scopes ih =>
    have hone : inContext c (ResourceLogs.tuples { rl with
          scopeLogs := OtlpBatcher.mergeScope rl.scopeLogs sl })
        = inContext c rl.tuples ++ inContext c (sl.tuples incoming) :=
      h.1.tuples hresource c
    have hrest := @ih { rl with
      scopeLogs := OtlpBatcher.mergeScope rl.scopeLogs sl } hresource h.2
    rw [hone, append_assoc, ← inContext_append] at hrest
    exact hrest

theorem inContext_flatMap_eq_nil {c : Context}
    (h : rl.resource ≠ c.resource) : inContext c rl.tuples = [] := by
  unfold inContext
  rw [filter_eq_nil_iff]
  intro t ht
  obtain ⟨sl, -, ht⟩ := mem_flatMap.mp ht
  obtain ⟨lr, -, rfl⟩ := mem_map.mp ht
  intro hc
  exact h (congrArg Context.resource (of_decide_eq_true hc))

def Unique (pending : List ResourceLogs) : Prop := (pending.map ResourceLogs.resource).Nodup

theorem unique_mergeResource (h : Unique pending) (incoming : ResourceLogs) :
    Unique (OtlpBatcher.mergeResource pending incoming) := by
  refine nodup_upsert ?_ h
  intro rl
  rfl

theorem KeepsResource.tuples (hunique : Unique pending)
    (h : KeepsResource pending incoming) (c : Context) :
    inContext c ((OtlpBatcher.mergeResource pending incoming).flatMap ResourceLogs.tuples)
      = inContext c (pending.flatMap ResourceLogs.tuples) ++ inContext c incoming.tuples := by
  apply upsert_filter
  · intro rl hrl
    have hresource := find?_some hrl
    exact (h rl hrl).tuples incoming.scopeLogs (of_decide_eq_true hresource) c
  · intro rl hrl
    have hne := key_ne_of_mem_behind hunique hrl
    by_cases hc : incoming.resource = c.resource
    · exact .inl (inContext_flatMap_eq_nil (hc ▸ hne))
    · exact .inr (inContext_flatMap_eq_nil hc)

theorem KeepsResources.tuples (resources : List ResourceLogs) (hunique : Unique pending)
    (h : KeepsResources resources pending) (c : Context) :
    Unique (resources.foldl OtlpBatcher.mergeResource pending)
      ∧ inContext c ((resources.foldl OtlpBatcher.mergeResource
          pending).flatMap ResourceLogs.tuples) = inContext c (pending.flatMap ResourceLogs.tuples)
          ++ inContext c (resources.flatMap ResourceLogs.tuples) := by
  induction resources generalizing pending with
  | nil => exact ⟨hunique, (append_nil _).symm⟩
  | cons rl resources ih =>
    obtain ⟨hkept, hrest⟩ := ih (unique_mergeResource hunique rl) h.2
    rw [h.1.tuples hunique, append_assoc, ← inContext_append] at hrest
    exact ⟨hkept, hrest⟩

namespace OtlpBatcher

def mergeAll (reqs : List (Nat × ExportLogsServiceRequest)) (self : OtlpBatcher) : OtlpBatcher :=
  reqs.foldl (fun self req => self.merge req.1 req.2) self

variable {self : OtlpBatcher}

theorem mergeAll_tuples (reqs : List (Nat × ExportLogsServiceRequest))
    (hunique : Unique self.pending.resourceLogs)
    (h : KeepsContext reqs self) (c : Context) : inContext c (self.mergeAll reqs).pending.tuples
      = inContext c self.pending.tuples ++ inContext c (reqs.flatMap (·.2.tuples)) := by
  induction reqs generalizing self with
  | nil => exact (append_nil _).symm
  | cons req reqs ih =>
    obtain ⟨hkept, hone⟩ := h.1.tuples _ hunique c
    have hrest := @ih (self.merge req.1 req.2) hkept h.2
    rw [flatMap_cons, inContext_append, ← append_assoc]
    exact hrest.trans (congrArg (· ++ _) hone)

theorem recordCount_eq (req : ExportLogsServiceRequest) : recordCount req = req.entries.length := by
  simp [recordCount, ExportLogsServiceRequest.entries, ResourceLogs.entries,
    ScopeLogs.entries, length_flatMap]

theorem pendingCount_merge (now : Nat) (req : ExportLogsServiceRequest)
    (h : self.pendingCount = recordCount self.pending) :
    (self.merge now req).pendingCount = recordCount (self.merge now req).pending := by
  have hlen := (self.merge_entries now req).length_eq
  rw [length_append, ← recordCount_eq, ← recordCount_eq, ← recordCount_eq, ← h] at hlen
  exact hlen.symm

theorem pendingCount_mergeAll (reqs : List (Nat × ExportLogsServiceRequest))
    (h : self.pendingCount = recordCount self.pending) :
    (self.mergeAll reqs).pendingCount = recordCount (self.mergeAll reqs).pending := by
  induction reqs generalizing self with
  | nil => exact h
  | cons req reqs ih => exact @ih (self.merge req.1 req.2) (pendingCount_merge _ _ h)

end OtlpBatcher

theorem perm_of_inContext {a b : List (Context × LogRecord)}
    (h : ∀ c, inContext c a = inContext c b) : a.Perm b := by
  rw [perm_iff_count]
  intro t
  have hcount := congrArg (List.count t) (h t.1)
  unfold inContext at hcount
  rw [count_filter (by simp), count_filter (by simp)] at hcount
  exact hcount

structure Agrees (kept sent : List (Context × LogRecord)) : Prop where
  same : ∀ c, inContext c kept = inContext c sent
  nodup : (sent.map Prod.snd).Nodup

namespace Agrees

variable {kept sent before after : List (Context × LogRecord)}

theorem eq_of_snd (h : Agrees kept sent) {t t' : Context × LogRecord}
    (ht : t ∈ kept) (ht' : t' ∈ sent) (hsnd : t.2 = t'.2) : t = t' :=
  inj_on_of_nodup_map h.nodup ((perm_of_inContext h.same).mem_iff.mp ht) ht' hsnd

theorem not_overtaken (h : Agrees kept sent) (hsent : sent = before ++ after)
    {c : Context} {a b : LogRecord} (hkept : List.Sublist [(c, a), (c, b)] kept)
    (ha : a ∈ after.map Prod.snd) : b ∉ before.map Prod.snd := by
  intro hb
  have hsub : List.Sublist [(c, a), (c, b)] sent := by
    have hfilter := hkept.filter fun t => decide (t.1 = c)
    have hall : [(c, a), (c, b)].filter (fun t => decide (t.1 = c)) = [(c, a), (c, b)] := by simp
    rw [hall] at hfilter
    have hsame : kept.filter (fun t => decide (t.1 = c))
        = sent.filter fun t => decide (t.1 = c) := h.same c
    rw [hsame] at hfilter
    exact hfilter.trans filter_sublist
  have hnodup := h.nodup
  have hsnd := hsub.map Prod.snd
  rw [hsent, map_append] at hnodup hsnd
  have hdisjoint := disjoint_of_nodup_append hnodup
  obtain ⟨x, y, hxy, hx, hy⟩ := sublist_append_iff.mp hsnd
  cases x with
  | nil =>
    have hb' : b ∈ y := by simp [← show _ = y from hxy]
    exact hdisjoint hb (hy.subset hb')
  | cons a' x =>
    have ha' : a = a' := (List.cons.inj hxy).1
    exact hdisjoint (hx.subset (ha' ▸ mem_cons_self)) ha

end Agrees

theorem exists_tuple_mergeScope {rl : ResourceLogs} {sl : ScopeLogs}
    {lr : LogRecord} (hlr : lr ∈ sl.logRecords) :
    ∃ t ∈ (OtlpBatcher.mergeScope rl.scopeLogs sl).flatMap (·.tuples rl),
      t.2 = lr ∧ t.1.resourceSchemaUrl = rl.schemaUrl
        ∧ ∀ g ∈ rl.scopeLogs.find? fun g => g.scope = sl.scope,
          t.1.scopeSchemaUrl = g.schemaUrl := by
  cases hfind : rl.scopeLogs.find? fun g => g.scope = sl.scope with
  | none =>
    refine ⟨(sl.context rl, lr), ?_, rfl, rfl, by simp⟩
    exact mem_flatMap.mpr ⟨sl, mem_upsert_of_find hfind, mem_map_of_mem hlr⟩
  | some g =>
    refine ⟨(g.context rl, lr), ?_, rfl, rfl, ?_⟩
    · refine mem_flatMap.mpr ⟨_, (sublist_upsert_of_find hfind).subset mem_cons_self, ?_⟩
      exact mem_map.mpr ⟨lr, mem_append_right _ hlr, rfl⟩
    · intro g' hg'
      cases hg'
      rfl

theorem KeepsScope.of_agrees (h : Agrees kept sent)
    (hsent : sent = before ++ (sl.tuples incoming ++ after))
    (hbefore : rl.records ⊆ before.map Prod.snd)
    (hkept : List.Sublist ((OtlpBatcher.mergeScope rl.scopeLogs sl).flatMap (·.tuples rl)) kept) :
    KeepsScope incoming.schemaUrl rl sl := by
  by_cases hnone : sl.logRecords = []
  · exact .inl hnone
  obtain ⟨lr, hlr⟩ := exists_mem_of_ne_nil _ hnone
  have hmem : (sl.context incoming, lr) ∈ sl.tuples incoming := mem_map_of_mem hlr
  have hcontext : ∀ t ∈ kept, t.2 = lr → t = (sl.context incoming, lr) := by
    intro t ht hsnd
    refine h.eq_of_snd ht ?_ hsnd
    rw [hsent]
    exact mem_append_right _ (mem_append_left _ hmem)
  obtain ⟨t, ht, hsnd, hurl, hscope⟩ := @exists_tuple_mergeScope rl sl lr hlr
  have htuple := hcontext t (hkept.subset ht) hsnd
  rw [htuple] at hurl hscope
  refine .inr ⟨hurl.symm, fun g hg => (hscope g hg).symm, ?_⟩
  intro g hg hsame
  by_contra hne
  obtain ⟨lr', hlr'⟩ := exists_mem_of_ne_nil _ hne
  obtain ⟨f, hf⟩ := find_of_mem_behind hg
  have hfscope : f.scope = sl.scope := by
    have hfind := find?_some hf
    exact of_decide_eq_true hfind
  have hfirst : f.context rl = g.context rl := by
    rw [hsame, ScopeLogs.context, ScopeLogs.context, hfscope, ← hscope f hf]
    rfl
  have hpair : List.Sublist [(g.context rl, lr), (g.context rl, lr')] kept := by
    have hjoined : (g.context rl, lr) ∈ ScopeLogs.tuples rl
        { f with logRecords := f.logRecords ++ sl.logRecords } :=
      mem_map.mpr ⟨lr, mem_append_right _ hlr, congrArg (·, lr) hfirst⟩
    have hlater : (g.context rl, lr') ∈ (behind
        (fun g => g.scope = sl.scope) rl.scopeLogs).flatMap (·.tuples rl) :=
      mem_flatMap.mpr ⟨g, hg, mem_map_of_mem hlr'⟩
    exact ((singleton_sublist.mpr hjoined).append (singleton_sublist.mpr hlater)).trans
        (((sublist_upsert_of_find hf).flatMap (·.tuples rl)).trans hkept)
  refine h.not_overtaken hsent hpair ?_ (hbefore ?_)
  · rw [map_append]
    exact mem_append_left _ (mem_map_of_mem hmem)
  · exact mem_flatMap.mpr ⟨g, (behind_sublist _ _).subset hg, hlr'⟩

theorem records_mergeScope (scopes : List ScopeLogs) (sl : ScopeLogs) :
    ((OtlpBatcher.mergeScope scopes sl).flatMap ScopeLogs.logRecords).Perm
      (scopes.flatMap ScopeLogs.logRecords ++ sl.logRecords) :=
  upsert_perm _ (fun _ _ => .refl _) scopes

theorem sublist_mergeScope (rl : ResourceLogs) (scopes : List ScopeLogs) (sl : ScopeLogs) :
    List.Sublist (scopes.flatMap (·.tuples rl))
      ((OtlpBatcher.mergeScope scopes sl).flatMap (·.tuples rl)) := by
  refine sublist_upsert _ ?_ scopes
  intro g _
  exact (sublist_append_left _ _).map _

theorem KeepsScopes.of_agrees (h : Agrees kept sent) (scopes : List ScopeLogs) (hsent : sent
      = before ++ (scopes.flatMap (·.tuples incoming) ++ after))
    (hbefore : rl.records ⊆ before.map Prod.snd)
    (hkept : List.Sublist ((scopes.foldl OtlpBatcher.mergeScope
      rl.scopeLogs).flatMap (·.tuples rl)) kept) : KeepsScopes incoming.schemaUrl scopes rl := by
  induction scopes generalizing rl before with
  | nil => trivial
  | cons sl scopes ih =>
    have hfirst : List.Sublist ((OtlpBatcher.mergeScope rl.scopeLogs
        sl).flatMap (·.tuples rl)) kept :=
      (sublist_foldl (sublist_mergeScope rl) scopes _).trans hkept
    rw [flatMap_cons, append_assoc] at hsent
    refine ⟨KeepsScope.of_agrees h hsent hbefore hfirst, ?_⟩
    refine @ih { rl with
      scopeLogs := OtlpBatcher.mergeScope rl.scopeLogs sl }
      (before ++ sl.tuples incoming) (by rw [hsent, append_assoc])
      ?_ hkept
    intro lr hlr
    rw [map_append, mem_append, ScopeLogs.map_snd_tuples]
    rcases mem_append.mp ((records_mergeScope _ _).subset hlr)
      with hlr | hlr
    · exact .inl (hbefore hlr)
    · exact .inr hlr

theorem records_mergeResource (pending : List ResourceLogs) (incoming : ResourceLogs) :
    ((OtlpBatcher.mergeResource pending incoming).flatMap ResourceLogs.records).Perm
      (pending.flatMap ResourceLogs.records ++ incoming.records) := by
  refine upsert_perm _ ?_ pending
  intro rl _
  exact foldl_perm records_mergeScope incoming.scopeLogs rl.scopeLogs

theorem sublist_mergeResource (pending : List ResourceLogs) (incoming : ResourceLogs) :
    List.Sublist (pending.flatMap ResourceLogs.tuples)
      ((OtlpBatcher.mergeResource pending incoming).flatMap ResourceLogs.tuples) := by
  refine sublist_upsert _ ?_ pending
  intro rl _
  exact sublist_foldl (sublist_mergeScope rl) incoming.scopeLogs rl.scopeLogs

theorem ResourceLogs.map_snd_tuples (rl : ResourceLogs) : rl.tuples.map Prod.snd = rl.records := by
  simp [ResourceLogs.tuples, ResourceLogs.records, map_flatMap, ScopeLogs.map_snd_tuples]

theorem KeepsResources.of_agrees
    (h : Agrees kept sent) (resources : List ResourceLogs) (hsent : sent
      = before ++ (resources.flatMap ResourceLogs.tuples ++ after))
    (hbefore : pending.flatMap ResourceLogs.records ⊆ before.map Prod.snd)
    (hkept : List.Sublist ((resources.foldl OtlpBatcher.mergeResource
      pending).flatMap ResourceLogs.tuples) kept) : KeepsResources resources pending
      ∧ (resources.foldl OtlpBatcher.mergeResource pending).flatMap ResourceLogs.records
        ⊆ (before ++ resources.flatMap ResourceLogs.tuples).map Prod.snd := by
  induction resources generalizing pending before with
  | nil =>
    rw [flatMap_nil, append_nil]
    exact ⟨trivial, hbefore⟩
  | cons incoming resources ih =>
    have hfirst : List.Sublist ((OtlpBatcher.mergeResource pending
        incoming).flatMap ResourceLogs.tuples) kept :=
      (sublist_foldl sublist_mergeResource resources _).trans hkept
    rw [flatMap_cons, append_assoc] at hsent
    have hrest := @ih (OtlpBatcher.mergeResource pending incoming)
      (before ++ incoming.tuples) (by rw [hsent, append_assoc]) (by
        intro lr hlr
        rw [map_append, mem_append, ResourceLogs.map_snd_tuples]
        exact (mem_append.mp ((records_mergeResource _ _).subset
          hlr)).imp_left fun hmem => hbefore hmem) hkept
    refine ⟨⟨?_, hrest.1⟩, ?_⟩
    · intro rl hrl
      have hmem := mem_of_find?_eq_some hrl
      refine KeepsScopes.of_agrees h incoming.scopeLogs hsent ?_ ?_
      · exact fun lr hlr => hbefore (mem_flatMap.mpr ⟨rl, hmem, hlr⟩)
      · have hjoined : { rl with
              scopeLogs := incoming.scopeLogs.foldl OtlpBatcher.mergeScope
                rl.scopeLogs }
            ∈ OtlpBatcher.mergeResource pending incoming :=
          (sublist_upsert_of_find hrl).subset mem_cons_self
        have hsub := (singleton_sublist.mpr hjoined).flatMap ResourceLogs.tuples
        rw [flatMap_singleton] at hsub
        exact hsub.trans hfirst
    · rw [flatMap_cons, ← append_assoc]
      exact hrest.2

namespace OtlpBatcher

theorem sublist_mergeAll (reqs : List (Nat × ExportLogsServiceRequest)) (self : OtlpBatcher) :
    List.Sublist self.pending.tuples (self.mergeAll reqs).pending.tuples := by
  induction reqs generalizing self with
  | nil => exact List.Sublist.refl _
  | cons req reqs ih =>
    exact (sublist_foldl sublist_mergeResource req.2.resourceLogs
      self.pending.resourceLogs).trans (ih (self.merge req.1 req.2))

theorem keepsContext_of_agrees {kept sent : List (Context × LogRecord)}
    (h : Agrees kept sent) (reqs : List (Nat × ExportLogsServiceRequest))
    {self : OtlpBatcher} {before : List (Context × LogRecord)}
    (hsent : sent = before ++ reqs.flatMap (·.2.tuples))
    (hbefore : self.pending.resourceLogs.flatMap ResourceLogs.records ⊆ before.map Prod.snd)
    (hkept : List.Sublist (self.mergeAll reqs).pending.tuples kept) : KeepsContext reqs self := by
  induction reqs generalizing self before with
  | nil => trivial
  | cons req reqs ih =>
    rw [flatMap_cons] at hsent
    obtain ⟨hfirst, hrecords⟩ := KeepsResources.of_agrees h req.2.resourceLogs hsent hbefore
      ((sublist_mergeAll reqs (self.merge req.1 req.2)).trans hkept)
    refine ⟨hfirst, @ih (self.merge req.1 req.2) (before ++ req.2.tuples) ?_ hrecords hkept⟩
    rw [hsent, append_assoc]

end OtlpBatcher

def PreservesContext (sent : List (Context × LogRecord)) (batcher : OtlpBatcher) : Prop :=
  batcher.pending.tuples.Perm sent ∧ (∀ c, inContext c batcher.pending.tuples = inContext c sent)
    ∧ batcher.pendingCount = OtlpBatcher.recordCount batcher.pending

/-- Merged records keep their context iff `KeepsContext`. -/
theorem merge_context_iff (batchSize : Nat) (batchTimeoutMs : UInt64)
    (reqs : List (Nat × ExportLogsServiceRequest)) :
    (KeepsContext reqs (.new batchSize batchTimeoutMs) →
      PreservesContext (reqs.flatMap (·.2.tuples))
        ((OtlpBatcher.new batchSize batchTimeoutMs).mergeAll reqs))
    ∧ (((reqs.flatMap (·.2.tuples)).map Prod.snd).Nodup →
      PreservesContext (reqs.flatMap (·.2.tuples))
        ((OtlpBatcher.new batchSize batchTimeoutMs).mergeAll reqs) →
      KeepsContext reqs (.new batchSize batchTimeoutMs)) := by
  constructor
  · intro hkeeps
    have hsame : ∀ c, inContext c ((OtlpBatcher.new batchSize
          batchTimeoutMs).mergeAll reqs).pending.tuples = inContext c (reqs.flatMap (·.2.tuples)) :=
      OtlpBatcher.mergeAll_tuples reqs nodup_nil hkeeps
    exact ⟨perm_of_inContext hsame, hsame, OtlpBatcher.pendingCount_mergeAll reqs rfl⟩
  · intro hnodup hpreserved
    exact OtlpBatcher.keepsContext_of_agrees ⟨hpreserved.2.1, hnodup⟩ reqs
      (nil_append _).symm (nil_subset _) (List.Sublist.refl _)

def urlRecord (url text : String) : ExportLogsServiceRequest :=
  { resourceLogs := [⟨none,
      [⟨none, [⟨0, 0, 0, text, none, [], [], [], "", []⟩], ""⟩], url⟩] }

theorem merge_context_same_url : PreservesContext ([(0, urlRecord "u" "INFO"),
        (1, urlRecord "u" "WARN")].flatMap (·.2.tuples)) ((OtlpBatcher.new 10 0).mergeAll
        [(0, urlRecord "u" "INFO"), (1, urlRecord "u" "WARN")]) := by
  refine (merge_context_iff 10 0 _).1 ⟨⟨?_, trivial⟩, ⟨?_, trivial⟩, trivial⟩
  · intro rl hrl
    cases hrl
  · intro rl hrl
    cases hrl
    refine ⟨.inr ⟨rfl, ?_, ?_⟩, trivial⟩
    · intro sl hsl
      cases hsl
      rfl
    · intro sl hsl
      cases hsl

theorem merge_loses_url : ¬ PreservesContext ([(0, urlRecord "u" "INFO"),
        (1, urlRecord "v" "WARN")].flatMap (·.2.tuples)) ((OtlpBatcher.new 10 0).mergeAll
        [(0, urlRecord "u" "INFO"), (1, urlRecord "v" "WARN")]) := fun h => absurd h.1 (by decide)

end Logjet
