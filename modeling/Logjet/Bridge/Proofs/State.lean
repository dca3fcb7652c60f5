/-
A state file that was cut short is refused or read as an earlier state of the
same stream.
-/
import Logjet.Bridge.State
import Logjet.Spool.Proofs.Disk

namespace Logjet

open List Utf8

variable {text line p key : Text}

theorem splitOnce_of_notMem {sep : Char} (h : sep ∉ text) : splitOnce sep text = none := by
  induction text with
  | nil => rfl
  | cons c text ih =>
    have hc : c ≠ sep := fun heq => h (heq ▸ mem_cons_self)
    rw [splitOnce, if_neg hc, ih fun hmem => h (mem_cons_of_mem _ hmem)]
    rfl

theorem splitOnce_append {sep : Char} {front : Text} (h : sep ∉ front) (behind : Text) :
    splitOnce sep (front ++ sep :: behind) = some (front, behind) := by
  induction front with
  | nil => rw [nil_append, splitOnce, if_pos rfl]
  | cons c front ih =>
    have hc : c ≠ sep := fun heq => h (heq ▸ mem_cons_self)
    rw [cons_append, splitOnce, if_neg hc, ih fun hmem => h (mem_cons_of_mem _ hmem)]
    rfl

theorem lines_of_notMem (h : '\n' ∉ line) : lines line = if line.isEmpty then [] else [line] := by
  have happend := @linesFrom_append [] line h []
  rw [append_nil, nil_append] at happend
  rw [lines, happend, linesFrom]

theorem lines_newline (h : '\n' ∉ line) (hlast : line.getLast? ≠ some '\r') (text : Text) :
    lines (line ++ '\n' :: text) = line :: lines text := by
  rw [lines, linesFrom_append h, nil_append, linesFrom, if_pos rfl,
    stripCarriageReturn, if_neg hlast]
  rfl

theorem cut_append {front behind : Text} (h : p <+: front ++ behind) :
    p <+: front ∨ ∃ q, p = front ++ q ∧ q <+: behind := by
  by_cases hlen : p.length ≤ front.length
  · exact Or.inl (prefix_of_prefix_length_le h (prefix_append front behind) hlen)
  · obtain ⟨q, rfl⟩ := prefix_of_prefix_length_le (prefix_append front behind) h (by omega)
    exact Or.inr ⟨q, rfl, (prefix_append_right_inj front).mp h⟩

theorem cut_separated {p front behind : Text} {sep : Char} (h : p <+: front ++ sep :: behind) :
    p <+: front ∨ ∃ q, p = front ++ sep :: q ∧ q <+: behind := by
  rcases cut_append h with hfront | ⟨q, rfl, hq⟩
  · exact Or.inl hfront
  · cases q with
    | nil => exact Or.inl (by rw [append_nil])
    | cons c q =>
      obtain ⟨rfl, hbehind⟩ := cons_prefix_cons.mp hq
      exact Or.inr ⟨q, rfl, hbehind⟩

theorem notMem_toText {value : UInt64} {c : Char} (h : c.isDigit = false) : c ∉ toText value := by
  intro hmem
  rw [isDigit_of_mem_toText hmem] at h
  cases h

theorem trim_cons {c : Char} (hc : isWhiteSpace c = false) (text : Text) :
    ∃ text', trim (c :: text) = c :: text' := by
  unfold trim
  rw [dropWhile_cons_of_neg (by simp [hc]), reverse_cons, dropWhile_append]
  split
  · rw [dropWhile_cons_of_neg (by simp [hc])]
    exact ⟨[], rfl⟩
  · exact ⟨(text.reverse.dropWhile isWhiteSpace).reverse, by simp⟩

theorem parseU64_trim_error (h : p <+: 's' :: text) : ∃ err, parseU64 (trim p) = .error err := by
  cases p with
  | nil => exact ⟨.empty, rfl⟩
  | cons c p =>
    cases (cons_prefix_cons.mp h).1
    obtain ⟨text', htrim⟩ := @trim_cons 's' (by decide) p
    rw [htrim]
    exact ⟨.invalidDigit, rfl⟩

variable {streamId lastSeq : UInt64} {fields : StateFields}

theorem parseStateLine_of_notMem (h : '=' ∉ line) :
    parseStateLine fields line = .ok fields := by rw [parseStateLine, splitOnce_of_notMem h]

theorem parseStateLine_streamId {digits : Text} (h : digits <+: toText streamId) :
    parseStateLine fields ("stream_id=".toList ++ digits)
      = (parseNumber "invalid bridge state stream_id: " digits).map
        fun v => { fields with streamId := some (some v) } := by
  have hdigits : ∀ c ∈ digits, c.isDigit := fun c hc => isDigit_of_mem_toText (h.subset hc)
  have hset : trim digits ≠ "unset".toList := by
    rw [trim_digits hdigits]
    intro heq
    exact absurd (hdigits 'u' (heq ▸ by decide)) (by decide)
  have hsplit : splitOnce '=' ("stream_id=".toList ++ digits) = some ("stream_id".toList, digits) :=
    @splitOnce_append '=' "stream_id".toList (by decide) digits
  rw [parseStateLine, hsplit]
  dsimp only
  rw [if_pos (by decide), if_neg hset]
  cases parseNumber "invalid bridge state stream_id: " digits <;> rfl

theorem parseStateLine_lastSeq (value : Text) : parseStateLine fields ("last_seq=".toList ++ value)
      = (parseNumber "invalid bridge state last_seq: " value).map
        fun v => { fields with lastSeq := some v } := by
  have hsplit : splitOnce '=' ("last_seq=".toList ++ value) = some ("last_seq".toList, value) :=
    @splitOnce_append '=' "last_seq".toList (by decide) value
  rw [parseStateLine, hsplit]
  dsimp only
  cases parseNumber "invalid bridge state last_seq: " value <;> rfl

def streamIdLine (streamId : UInt64) : Text := "stream_id=".toList ++ toText streamId

def lastSeqLine (lastSeq : UInt64) : Text := "last_seq=".toList ++ toText lastSeq

theorem append_lines (key value key' value' : Text) :
    key ++ value ++ ['\n'] ++ key' ++ value' ++ ['\n']
      = key ++ value ++ '\n' :: (key' ++ value' ++ ['\n']) := by simp

theorem bridgeStateText_eq : bridgeStateText ⟨some streamId, lastSeq⟩
      = streamIdLine streamId ++ '\n' :: (lastSeqLine lastSeq ++ ['\n']) :=
  append_lines "stream_id=".toList (toText streamId) "last_seq=".toList (toText lastSeq)

theorem newline_notMem_line (hkey : '\n' ∉ key) (value : UInt64) : '\n' ∉ key ++ toText value := by
  intro hmem
  rcases mem_append.mp hmem with hmem | hmem
  · exact hkey hmem
  · exact notMem_toText (by decide) hmem

theorem getLast?_line (key : Text) (value : UInt64) :
    (key ++ toText value).getLast? ≠ some '\r' := by
  have hne : toText value ≠ [] := Nat.toDigits_ne_nil
  rw [getLast?_append_of_ne_nil _ hne]
  intro hlast
  exact notMem_toText (by decide) (mem_of_getLast? hlast)

theorem foldlM_lines_one (h : '\n' ∉ line) (hne : line ≠ []) :
    (lines line).foldlM parseStateLine fields = parseStateLine fields line := by
  rw [lines_of_notMem h, if_neg (by simpa using hne)]
  show (parseStateLine fields line >>= fun fields => pure fields) = _
  exact bind_pure _

theorem first_line_cut (h : p <+: streamIdLine streamId) :
    (∃ err, (lines p).foldlM parseStateLine {} = .error err)
      ∨ ∃ fields : StateFields, (lines p).foldlM parseStateLine {} = .ok fields
        ∧ fields.lastSeq = none := by
  have hline : '\n' ∉ p := fun hmem => newline_notMem_line (by decide) streamId (h.subset hmem)
  by_cases hempty : p = []
  · subst hempty
    exact Or.inr ⟨{}, rfl, rfl⟩
  rw [foldlM_lines_one hline hempty]
  rcases @cut_separated p "stream_id".toList (toText streamId) '=' h with
    hkey | ⟨digits, rfl, hdigits⟩
  · have hno : '=' ∉ p := fun hmem => absurd (hkey.subset hmem) (by decide)
    exact Or.inr ⟨{}, parseStateLine_of_notMem hno, rfl⟩
  · have hparse := @parseStateLine_streamId streamId {} digits hdigits
    have hsame : "stream_id".toList ++ '=' :: digits = "stream_id=".toList ++ digits := rfl
    rw [hsame, hparse]
    cases parseNumber "invalid bridge state stream_id: " digits with
    | error err => exact Or.inl ⟨err, rfl⟩
    | ok v => exact Or.inr ⟨_, rfl, rfl⟩

theorem second_line_cut {q : Text} (h : q <+: lastSeqLine lastSeq) :
    (∃ err, (lines q).foldlM parseStateLine fields = .error err)
      ∨ (lines q).foldlM parseStateLine fields = .ok fields
      ∨ ∃ v ≤ lastSeq, (lines q).foldlM parseStateLine fields
        = .ok { fields with lastSeq := some v } := by
  have hline : '\n' ∉ q := fun hmem => newline_notMem_line (by decide) lastSeq (h.subset hmem)
  by_cases hempty : q = []
  · subst hempty
    exact Or.inr (Or.inl rfl)
  rw [foldlM_lines_one hline hempty]
  rcases @cut_separated q "last_seq".toList (toText lastSeq) '=' h with
    hkey | ⟨digits, rfl, hdigits⟩
  · have hno : '=' ∉ q := fun hmem => absurd (hkey.subset hmem) (by decide)
    exact Or.inr (Or.inl (parseStateLine_of_notMem hno))
  · have hparse := @parseStateLine_lastSeq fields digits
    have hsame : "last_seq".toList ++ '=' :: digits = "last_seq=".toList ++ digits := rfl
    rw [hsame, hparse]
    by_cases hcut : digits = []
    · subst hcut
      exact Or.inl ⟨_, rfl⟩
    · obtain ⟨v, hle, hv⟩ := parseNumber_of_prefix "invalid bridge state last_seq: " hdigits hcut
      rw [hv]
      exact Or.inr (Or.inr ⟨v, hle, rfl⟩)

theorem foldlM_line (hkey : '\n' ∉ key) (value : UInt64) (text : Text) :
    (lines (key ++ toText value ++ '\n' :: text)).foldlM parseStateLine fields
      = parseStateLine fields (key ++ toText value) >>= (lines text).foldlM parseStateLine := by
  rw [lines_newline (newline_notMem_line hkey value) (getLast?_line key value), foldlM_cons]

theorem foldlM_streamIdLine (streamId : UInt64) (text : Text) :
    (lines (streamIdLine streamId ++ '\n' :: text)).foldlM parseStateLine {}
      = (lines text).foldlM parseStateLine { streamId := some (some streamId) } := by
  refine (foldlM_line (by decide) streamId text).trans ?_
  rw [parseStateLine_streamId (prefix_refl _), parseNumber_toText]
  rfl

theorem foldlM_lastSeqLine (fields : StateFields) (lastSeq : UInt64) :
    (lines (lastSeqLine lastSeq ++ ['\n'])).foldlM parseStateLine fields
      = .ok { fields with lastSeq := some lastSeq } := by
  refine (foldlM_line (by decide) lastSeq []).trans ?_
  rw [parseStateLine_lastSeq, parseNumber_toText]
  rfl

theorem parseBridgeState_of_isPrefix
    (h : p <+: bridgeStateText ⟨some streamId, lastSeq⟩) : parseBridgeState p
      = (lines p).foldlM parseStateLine {} >>= StateFields.finish := by
  obtain ⟨err, herr⟩ := parseU64_trim_error h
  rw [parseBridgeState, herr]

theorem finish_none (h : fields.lastSeq = none) : ∃ err, fields.finish = .error err := by
  rw [StateFields.finish, h]
  exact ⟨_, rfl⟩

/-- A torn state file is an error or an earlier position. -/
theorem torn_bridge_state_safe (streamId lastSeq : UInt64) :
    parseBridgeState (bridgeStateText ⟨some streamId, lastSeq⟩) = .ok ⟨some streamId, lastSeq⟩
      ∧ ∀ p, p <+: bridgeStateText ⟨some streamId, lastSeq⟩ →
        (∃ err, parseBridgeState p = .error err)
        ∨ ∃ v ≤ lastSeq, parseBridgeState p = .ok ⟨some streamId, v⟩ := by
  have hwhole : parseBridgeState (bridgeStateText ⟨some streamId, lastSeq⟩)
      = .ok ⟨some streamId, lastSeq⟩ := by
    rw [parseBridgeState_of_isPrefix (prefix_refl _), bridgeStateText_eq,
      foldlM_streamIdLine, foldlM_lastSeqLine]
    rfl
  refine ⟨hwhole, ?_⟩
  intro p hp
  rw [parseBridgeState_of_isPrefix hp]
  rw [bridgeStateText_eq] at hp
  rcases cut_separated hp with hfirst | ⟨q, rfl, hq⟩
  · rcases first_line_cut hfirst with ⟨err, herr⟩ | ⟨fields, hok, hnone⟩
    · rw [herr]
      exact Or.inl ⟨err, rfl⟩
    · rw [hok, Except.ok_bind]
      exact Or.inl (finish_none hnone)
  · rw [foldlM_streamIdLine]
    rcases cut_separated hq with hsecond | ⟨q', rfl, hq'⟩
    · rcases second_line_cut hsecond with
        ⟨err, herr⟩ | hsame | ⟨v, hle, hv⟩
      · rw [herr]
        exact Or.inl ⟨err, rfl⟩
      · rw [hsame, Except.ok_bind]
        exact Or.inl (finish_none rfl)
      · rw [hv]
        exact Or.inr ⟨v, hle, rfl⟩
    · rw [prefix_nil.mp hq', foldlM_lastSeqLine]
      exact Or.inr ⟨lastSeq, UInt64.le_refl _, rfl⟩

theorem torn_bridge_state_safe_digit :
    parseBridgeState "stream_id=7\nlast_seq=1".toList = .ok ⟨some 7, 1⟩
      ∧ ((∃ err, parseBridgeState "stream_id=7\nlast_seq=1".toList = .error err)
        ∨ ∃ v ≤ 12, parseBridgeState "stream_id=7\nlast_seq=1".toList = .ok ⟨some 7, v⟩) :=
  ⟨by decide +kernel, (torn_bridge_state_safe 7 12).2 _ (by decide +kernel)⟩

end Logjet
