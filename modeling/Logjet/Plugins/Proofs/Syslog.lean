/-
Where the framing of syslog lines depends on the chunks they come in: only the
guard does, by clearing the beginning of a line longer than `maxLine`.
`Trails` is what it may leave of the open line.
-/
import Logjet.Plugins.Syslog

namespace Logjet.Syslog

open List

variable {line before buf bytes rest : Bytes}

def emits (line : Bytes) : List Bytes :=
  let trimmed := stripTrailingWhitespace line
  if trimmed.isEmpty then [] else [trimmed]

theorem strip_newline (line : Bytes) :
    stripTrailingWhitespace (line ++ [0x0a]) = stripTrailingWhitespace line :=
  rdropWhile_concat_pos _ _ _ rfl

theorem strip_eq_nil_iff : stripTrailingWhitespace line = [] ↔ ∀ b ∈ line, isAsciiWhitespace b :=
  rdropWhile_eq_nil_iff

theorem emits_eq_nil_iff : emits line = [] ↔ stripTrailingWhitespace line = [] := by
  unfold emits
  cases stripTrailingWhitespace line <;> simp

theorem drainLines_open (h : 0x0a ∉ buf) : drainLines buf = ([], buf) := by
  rw [drainLines]
  split
  · rfl
  · next pos hpos =>
    exact absurd (idxOf?_eq_none_iff.mpr h) (by rw [hpos]; exact Option.some_ne_none pos)

theorem drainLines_line (h : 0x0a ∉ line) :
    drainLines (line ++ 0x0a :: rest) =
      (emits line ++ (drainLines rest).1, (drainLines rest).2) := by
  have hpos : (line ++ 0x0a :: rest).idxOf? 0x0a = some line.length := by
    have hnone : line.findIdx? (· == 0x0a) = none := idxOf?_eq_none_iff.mpr h
    simp [idxOf?, findIdx?_append, hnone, findIdx?_cons]
  rw [drainLines]
  split
  · next hnone => cases hpos.symm.trans hnone
  · next pos hsome =>
    cases hpos.symm.trans hsome
    have htake : (line ++ 0x0a :: rest).take (line.length + 1) = line ++ [0x0a] := by
      rw [take_length_add_append, take_succ_cons, take_zero]
    have hdrop : (line ++ 0x0a :: rest).drop (line.length + 1) = rest := by
      rw [drop_length_add_append, drop_succ_cons, drop_zero]
    simp only [htake, hdrop, strip_newline, emits]
    split <;> rfl

@[elab_as_elim]
theorem lines_induction {P : Bytes → Prop} (unfinished : ∀ line, 0x0a ∉ line → P line)
    (complete : ∀ line rest, 0x0a ∉ line → P rest → P (line ++ 0x0a :: rest)) (buf : Bytes) :
    P buf := by
  by_cases h : 0x0a ∈ buf
  · obtain ⟨line, rest, heq, hline⟩ := eq_append_cons_of_mem h
    rw [heq]
    exact complete line rest hline (lines_induction unfinished complete rest)
  · exact unfinished buf h
termination_by buf.length

theorem drainLines_append (buf bytes : Bytes) : drainLines (buf ++ bytes) =
    ((drainLines buf).1 ++ (drainLines ((drainLines buf).2 ++ bytes)).1,
      (drainLines ((drainLines buf).2 ++ bytes)).2) := by
  induction buf using lines_induction with
  | unfinished line hline => rw [drainLines_open hline, nil_append]
  | complete line rest hline ih =>
    rw [append_assoc, cons_append, drainLines_line hline, drainLines_line hline, ih, append_assoc]

theorem drainLines_rest (buf : Bytes) :
    0x0a ∉ (drainLines buf).2 ∧ ∃ before, before ++ (drainLines buf).2 = buf := by
  induction buf using lines_induction with
  | unfinished line hline =>
    rw [drainLines_open hline]
    exact ⟨hline, [], rfl⟩
  | complete line rest hline ih =>
    rw [drainLines_line hline]
    obtain ⟨hrest, before, hbefore⟩ := ih
    refine ⟨hrest, line ++ 0x0a :: before, ?_⟩
    rw [append_assoc, cons_append, hbefore]

/-- Every line has room in the buffer or is blank. -/
def Calm (stream : Bytes) : Prop :=
  ∀ before line rest, stream = before ++ (line ++ 0x0a :: rest) → 0x0a ∉ line →
    line.length ≤ maxLine ∨ stripTrailingWhitespace line = []

theorem Calm.suffix (h : Calm (before ++ bytes)) : Calm bytes := by
  intro before' line rest heq hline
  exact h (before ++ before') line rest (by rw [heq, append_assoc]) hline

theorem Calm.left (h : Calm (bytes ++ rest)) : Calm bytes := by
  intro before line rest' heq hline
  exact h before line (rest' ++ rest) (by rw [heq]; simp) hline

def Trails (buf line : Bytes) : Prop := buf = line ∨ buf <:+ line ∧ maxLine < line.length

theorem Trails.guard (h : Trails buf line) :
    Trails (if buf.length > maxLine then [] else buf) line := by
  split
  · next hlong =>
    have hle : buf.length ≤ line.length := by
      obtain rfl | ⟨hsuffix, -⟩ := h
      · exact le_rfl
      · exact hsuffix.length_le
    exact .inr ⟨nil_suffix, hlong.trans_le hle⟩
  · exact h

theorem Trails.drain (h : Trails buf line) (hline : 0x0a ∉ line) (hcalm : Calm (line ++ bytes)) :
    (drainLines (buf ++ bytes)).1 = (drainLines (line ++ bytes)).1 ∧
      Trails (drainLines (buf ++ bytes)).2 (drainLines (line ++ bytes)).2 := by
  obtain rfl | ⟨⟨gone, rfl⟩, hlong⟩ := h
  · exact ⟨rfl, .inl rfl⟩
  have hbuf : 0x0a ∉ buf := fun hmem => hline (mem_append_right gone hmem)
  induction bytes using lines_induction with
  | unfinished tail htail =>
    rw [drainLines_open (not_mem_append hbuf htail), drainLines_open (not_mem_append hline htail)]
    refine ⟨rfl, .inr ⟨?_, ?_⟩⟩
    · rw [append_assoc]
      exact suffix_append gone (buf ++ tail)
    · rw [length_append]
      omega
  | complete tail rest htail _ =>
    have hblank : stripTrailingWhitespace (gone ++ buf ++ tail) = [] := by
      refine (hcalm [] _ rest (by simp) (not_mem_append hline htail)).resolve_left ?_
      rw [length_append]
      omega
    have hblank' : stripTrailingWhitespace (buf ++ tail) = [] := by
      rw [strip_eq_nil_iff] at hblank ⊢
      intro b hb
      rw [append_assoc] at hblank
      exact hblank b (mem_append_right gone hb)
    rw [← append_assoc, drainLines_line (not_mem_append hbuf htail), ← append_assoc,
      drainLines_line (not_mem_append hline htail), emits_eq_nil_iff.mpr hblank,
      emits_eq_nil_iff.mpr hblank']
    exact ⟨rfl, .inl rfl⟩

theorem feedAll_cons (buf chunk : Bytes) (chunks : List Bytes) :
    feedAll { buf } (chunk :: chunks) = (drainLines (buf ++ chunk)).1 ++
      feedAll { buf := if (drainLines (buf ++ chunk)).2.length > maxLine then []
        else (drainLines (buf ++ chunk)).2 } chunks := by
  rw [feedAll, feed]
  dsimp only
  split <;> rfl

theorem feedAll_of_calm {chunks : List Bytes} (h : Trails buf line) (hline : 0x0a ∉ line)
    (hcalm : Calm (line ++ chunks.flatten)) :
    feedAll { buf } chunks = (drainLines (line ++ chunks.flatten)).1 := by
  induction chunks generalizing buf line with
  | nil =>
    rw [flatten_nil, append_nil, drainLines_open hline]
    rfl
  | cons chunk chunks ih =>
    rw [flatten_cons, ← append_assoc] at hcalm
    obtain ⟨hrest, before, hbefore⟩ := drainLines_rest (line ++ chunk)
    obtain ⟨hlines, htrails⟩ := h.drain hline hcalm.left
    rw [← hbefore, append_assoc] at hcalm
    rw [flatten_cons, ← append_assoc, drainLines_append (line ++ chunk), feedAll_cons, hlines,
      ih htrails.guard hrest hcalm.suffix]

theorem feedAll_differs (hline : 0x0a ∉ line) (hlong : maxLine < line.length)
    (htext : stripTrailingWhitespace line ≠ []) :
    feedAll {} [before ++ (line ++ 0x0a :: rest)] ≠
      feedAll {} [before ++ line, 0x0a :: rest] := by
  have hopen : 0x0a ∉ (drainLines before).2 := (drainLines_rest before).1
  have hopen := not_mem_append hopen hline
  have hwhole : drainLines (before ++ line) =
      ((drainLines before).1, (drainLines before).2 ++ line) := by
    rw [drainLines_append, drainLines_open hopen, append_nil]
  have hgone : maxLine < ((drainLines before).2 ++ line).length := by
    rw [length_append]
    omega
  have hemits : emits ((drainLines before).2 ++ line) ≠ [] := by
    rw [ne_eq, emits_eq_nil_iff, strip_eq_nil_iff]
    rw [ne_eq, strip_eq_nil_iff] at htext
    exact fun hall => htext fun b hb => hall b (mem_append_right _ hb)
  have hone : feedAll {} [before ++ (line ++ 0x0a :: rest)] = (drainLines before).1 ++
      (emits ((drainLines before).2 ++ line) ++ (drainLines rest).1) := by
    rw [feedAll_cons, nil_append, ← append_assoc, drainLines_append (before ++ line), hwhole,
      drainLines_line hopen]
    exact append_nil _
  have htwo : feedAll {} [before ++ line, 0x0a :: rest] =
      (drainLines before).1 ++ (drainLines rest).1 := by
    rw [feedAll_cons, nil_append, hwhole, if_pos hgone, feedAll_cons, nil_append,
      ← nil_append (0x0a :: rest), drainLines_line not_mem_nil]
    exact congrArg _ (append_nil _)
  rw [hone, htwo]
  intro heq
  exact hemits (self_eq_append_left.mp (append_cancel_left heq).symm)

/-- The lines do not depend on the chunks iff the stream is `Calm`. -/
theorem feed_chunking_iff (stream : Bytes) :
    (∀ chunks chunks' : List Bytes, chunks.flatten = stream → chunks'.flatten = stream →
      feedAll {} chunks = feedAll {} chunks') ↔ Calm stream := by
  constructor
  · intro h before line rest heq hline
    by_contra hne
    obtain ⟨hlong, htext⟩ := not_or.mp hne
    refine @feedAll_differs line before rest hline (not_le.mp hlong) htext (h _ _ ?_ ?_)
    · rw [flatten_singleton, heq]
    · simp [heq]
  · intro hcalm chunks chunks' h h'
    have hstart : Trails [] [] := .inl rfl
    rw [feedAll_of_calm hstart not_mem_nil (by rwa [h]),
      feedAll_of_calm hstart not_mem_nil (by rwa [h']), h, h']

def longLine : Bytes := replicate (maxLine + 1) 0x61

theorem longLine_open : 0x0a ∉ longLine := by
  intro hmem
  exact absurd (eq_of_mem_replicate hmem) (by decide)

theorem emits_longLine : emits longLine = [longLine] := by
  have hstrip : stripTrailingWhitespace longLine = longLine := by
    refine rdropWhile_eq_self_iff.mpr fun hne => ?_
    rw [eq_of_mem_replicate (getLast_mem hne)]
    exact Bool.false_ne_true
  unfold emits
  rw [hstrip]
  rfl

theorem long_line_depends_on_chunks :
    feedAll {} [longLine ++ [0x0a]] = [longLine] ∧ feedAll {} [longLine, [0x0a]] = [] := by
  have hlong : longLine.length > maxLine := by
    unfold longLine
    rw [length_replicate]
    exact Nat.lt_succ_self _
  have hnewline : drainLines ([] ++ [0x0a]) = ([], []) := by
    rw [drainLines_line not_mem_nil, drainLines_open not_mem_nil]
    rfl
  constructor
  · rw [feedAll_cons, nil_append, drainLines_line longLine_open, emits_longLine,
      drainLines_open not_mem_nil]
    rfl
  · rw [feedAll_cons, nil_append, drainLines_open longLine_open, if_pos hlong, feedAll_cons,
      hnewline]
    rfl

-- ===================================================== any stream

/-- The plugin after a sequence of calls. -/
def fed (ctx : SyslogPlugin) : List Bytes → SyslogPlugin
  | [] => ctx
  | chunk :: chunks => fed (feed ctx chunk).2 chunks

/-- In order, each item the end of an item of the longer list. -/
def EndsOf (lines whole : List Bytes) : Prop :=
  ∃ kept, Forall₂ (· <:+ ·) lines kept ∧ kept <+ whole

theorem EndsOf.append {lines lines' whole whole' : List Bytes} (h : EndsOf lines whole)
    (h' : EndsOf lines' whole') : EndsOf (lines ++ lines') (whole ++ whole') := by
  obtain ⟨kept, hends, hkept⟩ := h
  obtain ⟨kept', hends', hkept'⟩ := h'
  exact ⟨kept ++ kept', rel_append hends hends', hkept.append hkept'⟩

theorem EndsOf.refl (lines : List Bytes) : EndsOf lines lines :=
  ⟨lines, forall₂_same.mpr fun _ _ => suffix_rfl, Sublist.refl lines⟩

theorem EndsOf.nil (whole : List Bytes) : EndsOf [] whole :=
  ⟨[], .nil, nil_sublist whole⟩

theorem strip_append (gone : Bytes) (h : stripTrailingWhitespace buf ≠ []) :
    stripTrailingWhitespace (gone ++ buf) = gone ++ stripTrailingWhitespace buf := by
  unfold stripTrailingWhitespace rdropWhile at h ⊢
  rw [reverse_append, dropWhile_append, if_neg (by simpa using h), reverse_append, reverse_reverse]

theorem emits_endsOf (h : buf <:+ line) : EndsOf (emits buf) (emits line) := by
  obtain ⟨gone, rfl⟩ := h
  by_cases hblank : stripTrailingWhitespace buf = []
  · rw [emits_eq_nil_iff.mpr hblank]
    exact .nil _
  · have hemits : emits (gone ++ buf) = [gone ++ stripTrailingWhitespace buf] := by
      simp [emits, strip_append gone hblank, hblank]
    rw [hemits, emits, if_neg (by simpa using hblank)]
    exact ⟨_, .cons (suffix_append gone _) .nil, Sublist.refl _⟩

/-- The guard only ever shortens the open line from its beginning, and a
line's end is what is left of it when it is cut there. -/
theorem drainLines_endsOf (h : buf <:+ line) (hline : 0x0a ∉ line) (bytes : Bytes) :
    EndsOf (drainLines (buf ++ bytes)).1 (drainLines (line ++ bytes)).1 ∧
      (drainLines (buf ++ bytes)).2 <:+ (drainLines (line ++ bytes)).2 := by
  have hbuf : 0x0a ∉ buf := fun hmem => hline (h.subset hmem)
  induction bytes using lines_induction with
  | unfinished tail htail =>
    rw [drainLines_open (not_mem_append hbuf htail), drainLines_open (not_mem_append hline htail)]
    exact ⟨.nil _, suffix_append_self_iff.mpr h⟩
  | complete tail rest htail _ =>
    rw [← append_assoc, drainLines_line (not_mem_append hbuf htail), ← append_assoc,
      drainLines_line (not_mem_append hline htail)]
    -- from the first newline on the two are the same
    exact ⟨(emits_endsOf (suffix_append_self_iff.mpr h)).append (.refl _), suffix_rfl⟩

theorem feedAll_endsOf {chunks : List Bytes} (h : buf <:+ line) (hline : 0x0a ∉ line) :
    EndsOf (feedAll { buf } chunks) (drainLines (line ++ chunks.flatten)).1 := by
  induction chunks generalizing buf line with
  | nil => exact .nil _
  | cons chunk chunks ih =>
    obtain ⟨hlines, hrest⟩ := drainLines_endsOf h hline chunk
    rw [flatten_cons, ← append_assoc, drainLines_append (line ++ chunk), feedAll_cons]
    refine hlines.append (ih ?_ (drainLines_rest _).1)
    split
    · exact nil_suffix
    · exact hrest

/-- What the guard and the cutting leave in the buffer. -/
def Settled (ctx : SyslogPlugin) : Prop := ctx.buf.length ≤ maxLine ∧ 0x0a ∉ ctx.buf

theorem settled_feed (ctx : SyslogPlugin) (chunk : Bytes) : Settled (feed ctx chunk).2 := by
  unfold feed
  dsimp only
  split
  · exact ⟨Nat.zero_le _, not_mem_nil⟩
  · next hshort => exact ⟨not_lt.mp hshort, (drainLines_rest _).1⟩

theorem Settled.fed {ctx : SyslogPlugin} (h : Settled ctx) (chunks : List Bytes) :
    Settled (fed ctx chunks) := by
  induction chunks generalizing ctx with
  | nil => exact h
  | cons chunk chunks ih => exact ih (settled_feed ctx chunk)

/-- Whatever the chunks, the records are, in the order of the stream, ends of
lines that one call with the whole stream gives, and the buffer never outgrows
the guard. -/
theorem feed_any_chunks (chunks : List Bytes) :
    EndsOf (feedAll {} chunks) (feedAll {} [chunks.flatten]) ∧ Settled (fed {} chunks) := by
  constructor
  · have hone : feedAll {} [chunks.flatten] = (drainLines chunks.flatten).1 := by
      exact append_nil _
    rw [hone, ← nil_append chunks.flatten]
    exact feedAll_endsOf suffix_rfl not_mem_nil
  · exact Settled.fed ⟨Nat.zero_le _, not_mem_nil⟩ chunks

end Logjet.Syslog
