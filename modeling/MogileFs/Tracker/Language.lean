import MogileFs.Tracker.InPlace

/-!
# The language of tracker responses

Which lines `mfs_tracker_parse_response` takes, and what they mean, said about the text of
the line alone: `OkResponse` and `ErrResponse` are the two kinds of responses.

Results:
* `parseResponse_ok`, `parseResponse_err`, `parseResponse_invalid`: the parser on a line
  of either kind and on any other.
* `trackerResponse_language`: the parser in place, on every line as
  `mfs_tracker_request` presents it.
-/

namespace MogileFs

open Pieces CheckedMemory

/-! ## The two kinds of responses -/

/-- What stands behind `OK ` and the spaces and digits that follow. -/
def okBody (c : Bytes) : Bytes :=
  (c.drop 3).dropWhile fun b => b = ch ' ' || (ch '0' ≤ b && b ≤ ch '9')

/-- `OK `, and pieces that all have a `=`. -/
def OkResponse (c : Bytes) : Prop :=
  str "OK " <+: c ∧ ∀ piece ∈ pieces (ch '&') (okBody c), ch '=' ∈ piece

/-- What stands behind `ERR ` and the spaces that follow. -/
def errBody (c : Bytes) : Bytes := (c.drop 4).dropWhile (· = ch ' ')

/-- `ERR `, and two words at least. -/
def ErrResponse (c : Bytes) : Prop := str "ERR " <+: c ∧ ch ' ' ∈ errBody c

/-- The first word. -/
def errCode (c : Bytes) : Bytes := (errBody c).takeWhile (· ≠ ch ' ')

/-- What follows it, without the spaces in front. -/
def errDesc (c : Bytes) : Bytes :=
  (((errBody c).dropWhile (· ≠ ch ' ')).drop 1).dropWhile (· = ch ' ')

theorem not_ok_and_err {c : Bytes} (hok : str "OK " <+: c) (herr : str "ERR " <+: c) : False := by
  obtain ⟨s, rfl⟩ := hok
  obtain ⟨t, ht⟩ := herr
  have := (List.cons.inj ht).1
  exact absurd this (by decide)

/-! ## The parser on lists -/

theorem drop_length_takeWhile (p : Byte → Bool) (s : Bytes) :
    s.drop (s.takeWhile p).length = s.dropWhile p := by
  calc s.drop (s.takeWhile p).length
      = (s.takeWhile p ++ s.dropWhile p).drop (s.takeWhile p).length := by
        rw [List.takeWhile_append_dropWhile]
    _ = s.dropWhile p := List.drop_left

theorem parseOk_terminated {text : Bytes} (htext : (0 : Byte) ∉ text) :
    parseOk (text ++ [0, LF]) =
      ⟨if (pieces (ch '&') (okBody (str "OK " ++ text))).all hasValue then .success else .eftype,
        if (pieces (ch '&') (okBody (str "OK " ++ text))).all hasValue then some true else none,
        leadingPairs (okBody (str "OK " ++ text))⟩ := by
  have hskip : skipSpaceOrNumber (text ++ [0, LF]) = some (text.takeWhile fun b =>
      b = ch ' ' || (ch '0' ≤ b && b ≤ ch '9')).length := skipWhile_terminated (by decide) text
  have hbody : text.drop (text.takeWhile fun b =>
      b = ch ' ' || (ch '0' ≤ b && b ≤ ch '9')).length = okBody (str "OK " ++ text) :=
    drop_length_takeWhile _ text
  have hcstr : cstr (okBody (str "OK " ++ text)) = okBody (str "OK " ++ text) :=
    cstr_of_notMem fun h => htext ((List.dropWhile_suffix _).subset h)
  unfold parseOk
  simp only [hskip]
  rw [List.drop_append_of_le_length (List.takeWhile_prefix _).length_le, hbody,
    cstr_append_terminator, hcstr, parsePairs_eq]
  by_cases hall : (pieces (ch '&') (okBody (str "OK " ++ text))).all hasValue
  · simp only [hall, if_true]
  · simp only [hall, if_false, Bool.false_eq_true, reduceCtorEq]

theorem parseErr_terminated {text : Bytes} (htext : (0 : Byte) ∉ text) :
    parseErr (text ++ [0, LF]) =
      if ch ' ' ∈ errBody (str "ERR " ++ text) then
        ⟨.success, some false,
          [(str "ERROR_CODE", mfsTrackerUrlDecode (errCode (str "ERR " ++ text))),
            (str "ERROR_DESC", mfsTrackerUrlDecode (errDesc (str "ERR " ++ text)))]⟩
      else .fail .eftype := by
  have hskip : skipChar (text ++ [0, LF]) (ch ' ') =
      some (text.takeWhile (· = ch ' ')).length := skipWhile_terminated (by decide) text
  have hbody : text.drop (text.takeWhile (· = ch ' ')).length = errBody (str "ERR " ++ text) :=
    drop_length_takeWhile _ text
  have hnul : (0 : Byte) ∉ errBody (str "ERR " ++ text) := fun h =>
    htext ((List.dropWhile_suffix _).subset h)
  unfold parseErr
  simp only [hskip]
  rw [List.drop_append_of_le_length (List.takeWhile_prefix _).length_le, hbody, errCode, errDesc]
  generalize errBody (str "ERR " ++ text) = r at hnul ⊢
  rw [skipNotChar_terminated (by decide) (by decide)]
  by_cases hspace : ch ' ' ∈ r
  · have hcode : cstr ((r ++ [0, LF]).take (r.takeWhile (· ≠ ch ' ')).length) =
        r.takeWhile (· ≠ ch ' ') := by
      rw [List.take_append_of_le_length (List.takeWhile_prefix _).length_le,
        ← List.prefix_iff_eq_take.mp (List.takeWhile_prefix _)]
      exact cstr_of_notMem fun h => hnul ((List.takeWhile_prefix _).subset h)
    have hrest : (r ++ [0, LF]).drop ((r.takeWhile (· ≠ ch ' ')).length + 1) =
        (r.dropWhile (· ≠ ch ' ')).drop 1 ++ [0, LF] := by
      have hne : r.dropWhile (· ≠ ch ' ') ≠ [] := fun hnil => by
        simpa using List.dropWhile_eq_nil_iff.mp hnil _ hspace
      rw [← List.drop_drop, List.drop_append_of_le_length (List.takeWhile_prefix _).length_le,
        drop_length_takeWhile, List.drop_append_of_le_length (List.length_pos_of_ne_nil hne)]
    have hnul' : (0 : Byte) ∉ (r.dropWhile (· ≠ ch ' ')).drop 1 := fun h =>
      hnul ((List.dropWhile_suffix _).subset (List.mem_of_mem_drop h))
    generalize (r.dropWhile (· ≠ ch ' ')).drop 1 = rest at hrest hnul' ⊢
    have hskip' : skipChar (rest ++ [0, LF]) (ch ' ') =
        some (rest.takeWhile (· = ch ' ')).length := skipWhile_terminated (by decide) rest
    rw [if_pos hspace, if_pos hspace]
    simp only [hcode, hrest, hskip']
    rw [List.drop_append_of_le_length (List.takeWhile_prefix _).length_le, drop_length_takeWhile,
      cstr_append_terminator, cstr_of_notMem fun h => hnul' ((List.dropWhile_suffix _).subset h)]
  · rw [if_neg hspace, if_neg hspace]

theorem parseResponse_terminated (c : Bytes) :
    parseResponse (c ++ [0, LF]) =
      if str "OK " <+: c then parseOk (c.drop 3 ++ [0, LF])
      else if str "ERR " <+: c then parseErr (c.drop 4 ++ [0, LF])
      else .fail .eftype := by
  have hok : (c ++ [0, LF]).take 3 = str "OK " ↔ str "OK " <+: c :=
    take_terminated (s := str "OK ") (by decide)
  have herr : (c ++ [0, LF]).take 4 = str "ERR " ↔ str "ERR " <+: c :=
    take_terminated (s := str "ERR ") (by decide)
  have hlen : (c ++ [0, LF]).length = c.length + 2 := by simp
  unfold parseResponse
  rw [hlen]
  by_cases hstart : str "OK " <+: c
  · have h3 : 3 ≤ c.length := hstart.length_le
    rw [if_neg (by omega), if_pos (hok.mpr hstart), if_pos hstart,
      List.drop_append_of_le_length h3]
  · rw [if_neg (mt hok.mp hstart), if_neg hstart]
    by_cases hstart : str "ERR " <+: c
    · have h4 : 4 ≤ c.length := hstart.length_le
      rw [if_neg (by omega), if_pos ⟨by omega, herr.mpr hstart⟩, if_pos hstart,
        List.drop_append_of_le_length h4]
    · have hnot : ¬(c.length + 2 > 4 ∧ (c ++ [0, LF]).take 4 = str "ERR ") :=
        fun h => hstart (herr.mp h.2)
      rw [if_neg hnot, if_neg hstart, ite_self]

theorem parseResponse_ok {c : Bytes} (hc : (0 : Byte) ∉ c) (h : OkResponse c) :
    parseResponse (c ++ [0, LF]) =
      ⟨.success, some true, (pieces (ch '&') (okBody c)).map pairOf⟩ := by
  obtain ⟨⟨text, rfl⟩, hpieces⟩ := h
  have hall : (pieces (ch '&') (okBody (str "OK " ++ text))).all hasValue :=
    List.all_eq_true.mpr fun piece hpiece => List.contains_iff_mem.mpr (hpieces piece hpiece)
  rw [parseResponse_terminated, if_pos (List.prefix_append _ _)]
  refine (parseOk_terminated fun h => hc (List.mem_append_right _ h)).trans ?_
  rw [if_pos hall, if_pos hall, leadingPairs,
    List.takeWhile_eq_self_iff.mpr (List.all_eq_true.mp hall)]

theorem parseResponse_err {c : Bytes} (hc : (0 : Byte) ∉ c) (h : ErrResponse c) :
    parseResponse (c ++ [0, LF]) =
      ⟨.success, some false, [(str "ERROR_CODE", mfsTrackerUrlDecode (errCode c)),
        (str "ERROR_DESC", mfsTrackerUrlDecode (errDesc c))]⟩ := by
  obtain ⟨hstart, hspace⟩ := h
  rw [parseResponse_terminated, if_neg fun hok => not_ok_and_err hok hstart, if_pos hstart]
  obtain ⟨text, rfl⟩ := hstart
  refine (parseErr_terminated fun h => hc (List.mem_append_right _ h)).trans ?_
  rw [if_pos hspace]

theorem parseResponse_invalid {c : Bytes} (hc : (0 : Byte) ∉ c) (hok : ¬OkResponse c)
    (herr : ¬ErrResponse c) :
    (parseResponse (c ++ [0, LF])).rv = .eftype ∧ (parseResponse (c ++ [0, LF])).ok = none := by
  rw [parseResponse_terminated]
  by_cases hstart : str "OK " <+: c
  · rw [if_pos hstart]
    obtain ⟨text, rfl⟩ := hstart
    have hall : ¬(pieces (ch '&') (okBody (str "OK " ++ text))).all hasValue := fun h =>
      hok ⟨List.prefix_append _ _, fun piece hpiece =>
        List.contains_iff_mem.mp (List.all_eq_true.mp h piece hpiece)⟩
    have hparse := parseOk_terminated fun h => hc (List.mem_append_right (str "OK ") h)
    rw [if_neg hall, if_neg hall] at hparse
    exact ⟨congrArg Reply.rv hparse, congrArg Reply.ok hparse⟩
  · rw [if_neg hstart]
    by_cases hstart : str "ERR " <+: c
    · rw [if_pos hstart]
      obtain ⟨text, rfl⟩ := hstart
      have hparse := parseErr_terminated fun h => hc (List.mem_append_right (str "ERR ") h)
      rw [if_neg fun h => herr ⟨List.prefix_append _ _, h⟩] at hparse
      exact ⟨congrArg Reply.rv hparse, congrArg Reply.ok hparse⟩
    · rw [if_neg hstart]
      exact ⟨rfl, rfl⟩

/-! ## The parser in place -/

/-- Every line without NUL, as `mfs_tracker_request` presents it: no byte outside the
    buffer is read or written, `*ok` tells the two kinds of responses apart, and nothing
    else is taken. -/
theorem trackerResponse_language {c : Bytes} (hc : (0 : Byte) ∉ c) (ok : Option Bool)
    (result : Hash) :
    ∃ rv ok' result',
      mfsTrackerParseResponseAt (c ++ [0, LF]) (c.length + 2) ok result = .ok (rv, ok', result') ∧
      (rv = .success ∧ ok' = some true ↔ OkResponse c) ∧
      (OkResponse c →
        result' = KeyedUpdates.setAll result ((pieces (ch '&') (okBody c)).map pairOf)) ∧
      (rv = .success ∧ ok' = some false ↔ ErrResponse c) ∧
      (ErrResponse c → result' = KeyedUpdates.setAll result
        [(str "ERROR_CODE", mfsTrackerUrlDecode (errCode c)),
          (str "ERROR_DESC", mfsTrackerUrlDecode (errDesc c))]) ∧
      (¬OkResponse c → ¬ErrResponse c → rv = .eftype ∧ ok' = ok) := by
  obtain ⟨mem', hparse⟩ := parseResponseAt_eq c
  refine ⟨_, _, _, by rw [mfsTrackerParseResponseAt, hparse]; rfl, ?_⟩
  by_cases hok : OkResponse c
  · have herr : ¬ErrResponse c := fun h => not_ok_and_err hok.1 h.1
    rw [parseResponse_ok hc hok]
    simp [hok, herr, Reply.okAfter, Reply.resultAfter]
  · by_cases herr : ErrResponse c
    · rw [parseResponse_err hc herr]
      simp [hok, herr, Reply.okAfter, Reply.resultAfter]
    · obtain ⟨hrv, hnone⟩ := parseResponse_invalid hc hok herr
      simp [hok, herr, hrv, hnone, Reply.okAfter]

/-- A response with two pairs. -/
theorem trackerResponse_language_ok :
    ∃ rv ok' result',
      mfsTrackerParseResponseAt (str "OK 1 a=b&c=d" ++ [0, LF]) ((str "OK 1 a=b&c=d").length + 2)
        none aprHashMake = .ok (rv, ok', result') ∧
      (rv = .success ∧ ok' = some true ↔ OkResponse (str "OK 1 a=b&c=d")) ∧
      (OkResponse (str "OK 1 a=b&c=d") → result' = KeyedUpdates.setAll aprHashMake
        ((pieces (ch '&') (okBody (str "OK 1 a=b&c=d"))).map pairOf)) ∧
      (rv = .success ∧ ok' = some false ↔ ErrResponse (str "OK 1 a=b&c=d")) ∧
      (ErrResponse (str "OK 1 a=b&c=d") → result' = KeyedUpdates.setAll aprHashMake
        [(str "ERROR_CODE", mfsTrackerUrlDecode (errCode (str "OK 1 a=b&c=d"))),
          (str "ERROR_DESC", mfsTrackerUrlDecode (errDesc (str "OK 1 a=b&c=d")))]) ∧
      (¬OkResponse (str "OK 1 a=b&c=d") → ¬ErrResponse (str "OK 1 a=b&c=d") →
        rv = .eftype ∧ ok' = none) :=
  trackerResponse_language (by decide) none aprHashMake

end MogileFs
