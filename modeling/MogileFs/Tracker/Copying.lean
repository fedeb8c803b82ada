import MogileFs.Tracker.RequestLine

/-!
# Copied parameters

`mfs_tracker_copy_parameter_pointers` (`src/tracker.c`, lines 140–150) gives the flagged meta data
of a list the next numbers of the destination, and appends everything else as it is. Meta data
added with `prepare` is not flagged: it keeps the number it got in the source list, and the
destination does not count it.

Results:
* `copy_eq_direct`: copying a list without prepared meta data is adding its entries.
* `metaKeys_perm`: the keys of meta data in the destination afterwards.
* `freeKeys_runCalls`: destinations in which the numbers are free.
* `sameRequest_iff`: when the two destinations build the same requests, with every number once.
* `prepared_not_counted`: prepared meta data arrives without its count.
-/

namespace MogileFs

/-! ## Filling a source list -/

/-- One call that fills a list that is to be copied. -/
inductive SourceCall
  | parameter (key value : Bytes)
  | metaData (key value : Bytes) (prepare : Bool)
deriving DecidableEq

def SourceCall.run (parameters : RequestParameters) : SourceCall → RequestParameters
  | .parameter key value => mfsTrackerAddParameter parameters key value
  | .metaData key value prepare => mfsTrackerAddMetaData parameters key value prepare

/-- The call on the destination itself, meta data being prepared. -/
def SourceCall.direct : SourceCall → AddCall
  | .parameter key value => .parameter key value
  | .metaData key value _ => .metaData key value

/-- The call is `mfs_tracker_add_meta_data(…, prepare = true)`. -/
def SourceCall.isPrepared : SourceCall → Bool
  | .parameter .. => false
  | .metaData _ _ prepare => prepare

/-- The call is `mfs_tracker_add_meta_data(…, prepare = false)`. -/
def SourceCall.isFlagged : SourceCall → Bool
  | .parameter .. => false
  | .metaData _ _ prepare => !prepare

/-- The calls on a fresh list, which is then copied into the destination. -/
def copyCalls (calls : List SourceCall) (dest : RequestParameters) : RequestParameters :=
  mfsTrackerCopyParameterPointers (calls.foldl SourceCall.run mfsTrackerInitParameters) dest

/-- The calls on the destination itself. -/
def directCalls (calls : List SourceCall) (dest : RequestParameters) : RequestParameters :=
  (calls.map SourceCall.direct).foldl AddCall.run dest

/-- The meta data of the calls, in order. -/
def metaDataOf (calls : List SourceCall) : List (Bytes × Bytes) :=
  calls.filterMap fun
    | .parameter .. => none
    | .metaData key value _ => some (key, value)

/-- The pairs of meta data that is numbered from `index` on. -/
def numberedPairs (index : ℕ) (metaData : List (Bytes × Bytes)) : List (Bytes × Bytes) :=
  (metaData.zipIdx index).flatMap fun p => metaPairs p.2 p.1.1 p.1.2

/-! ## Copying without prepared meta data -/

/-- What one call that does not prepare appends. -/
def SourceCall.entry : SourceCall → RequestParameter
  | .parameter key value => pairParameter (key, value)
  | .metaData key value _ => ⟨key, 0, value, 0, true⟩

theorem list_run (parameters : RequestParameters) {call : SourceCall}
    (h : call.isPrepared = false) :
    (call.run parameters).list = parameters.list ++ [call.entry] := by
  cases call with
  | parameter key value => rfl
  | metaData key value prepare =>
    obtain rfl : prepare = false := h
    rfl

theorem list_foldl_run (calls : List SourceCall) (parameters : RequestParameters)
    (h : ∀ call ∈ calls, call.isPrepared = false) :
    (calls.foldl SourceCall.run parameters).list =
      parameters.list ++ calls.map SourceCall.entry := by
  induction calls generalizing parameters with
  | nil => simp
  | cons call calls ih =>
    rw [List.foldl_cons, ih _ fun c hc => h c (List.mem_cons_of_mem _ hc),
      list_run parameters (h call List.mem_cons_self), List.append_assoc]
    rfl

/-- One round of the copying loop. -/
def copyEntry (dest : RequestParameters) (param : RequestParameter) : RequestParameters :=
  if param.isMetadata then mfsTrackerAddMetaData dest param.key param.value true
  else mfsTrackerAddParameterPointers dest param.key param.keyLength param.value param.valueLength

theorem copyParameterPointers_eq (src dest : RequestParameters) :
    mfsTrackerCopyParameterPointers src dest = src.list.foldl copyEntry dest := rfl

theorem copyEntry_entry (dest : RequestParameters) (call : SourceCall) :
    copyEntry dest call.entry = call.direct.run dest := by
  cases call with
  | parameter key value => rfl
  | metaData key value prepare => rfl

/-- Copying a list without prepared meta data is adding its entries. -/
theorem copy_eq_direct {calls : List SourceCall} (h : ∀ call ∈ calls, call.isPrepared = false)
    (dest : RequestParameters) : copyCalls calls dest = directCalls calls dest := by
  unfold copyCalls directCalls
  rw [copyParameterPointers_eq, list_foldl_run calls _ h]
  simp only [mfsTrackerInitParameters, List.nil_append, List.foldl_map, copyEntry_entry]

/-! ## The counts -/

theorem metaCount_copyEntry (dest : RequestParameters) (param : RequestParameter) :
    (copyEntry dest param).metaCount =
      dest.metaCount + if param.isMetadata then 1 else 0 := by
  unfold copyEntry
  split_ifs
  · rfl
  · rfl

theorem metaCount_foldl_copyEntry (params : List RequestParameter) (dest : RequestParameters) :
    (params.foldl copyEntry dest).metaCount =
      dest.metaCount + params.countP RequestParameter.isMetadata := by
  induction params generalizing dest with
  | nil => rfl
  | cons param params ih =>
    rw [List.foldl_cons, ih, metaCount_copyEntry, List.countP_cons]
    omega

/-- Only the calls that do not prepare leave flagged entries. -/
theorem countP_foldl_run (calls : List SourceCall) (parameters : RequestParameters) :
    (calls.foldl SourceCall.run parameters).list.countP RequestParameter.isMetadata =
      parameters.list.countP RequestParameter.isMetadata + calls.countP SourceCall.isFlagged := by
  induction calls generalizing parameters with
  | nil => rfl
  | cons call calls ih =>
    have hcall : (call.run parameters).list.countP RequestParameter.isMetadata =
        parameters.list.countP RequestParameter.isMetadata +
          if call.isFlagged then 1 else 0 := by
      cases call with
      | parameter key value => exact List.countP_append ..
      | metaData key value prepare =>
        cases prepare with
        | true =>
          show (_ ++ [_] ++ [_] : List RequestParameter).countP _ = _
          rw [List.countP_append, List.countP_append]
          rfl
        | false => exact List.countP_append ..
    rw [List.foldl_cons, ih, hcall, List.countP_cons]
    omega

theorem metaCount_copyCalls (calls : List SourceCall) (dest : RequestParameters) :
    (copyCalls calls dest).metaCount = dest.metaCount + calls.countP SourceCall.isFlagged := by
  rw [copyCalls, copyParameterPointers_eq, metaCount_foldl_copyEntry, countP_foldl_run]
  simp [mfsTrackerInitParameters]

theorem metaCount_directCalls (calls : List SourceCall) (dest : RequestParameters) :
    (directCalls calls dest).metaCount = dest.metaCount +
      (calls.countP SourceCall.isFlagged + calls.countP SourceCall.isPrepared) := by
  unfold directCalls
  induction calls generalizing dest with
  | nil => rfl
  | cons call calls ih =>
    have hcall : (call.direct.run dest).metaCount = dest.metaCount +
        ((if call.isFlagged then 1 else 0) + if call.isPrepared then 1 else 0) := by
      cases call with
      | parameter key value => rfl
      | metaData key value prepare => cases prepare <;> rfl
    rw [List.map_cons, List.foldl_cons, ih, hcall, List.countP_cons, List.countP_cons]
    omega

/-! ## The numbers -/

/-- The entries that calls on the destination append, whatever it holds. -/
theorem list_foldl_direct (calls : List AddCall) (dest : RequestParameters) :
    (calls.foldl AddCall.run dest).list =
      dest.list ++ (plainPairs dest.metaCount calls).map pairParameter := by
  induction calls generalizing dest with
  | nil => simp [plainPairs]
  | cons call calls ih =>
    rw [List.foldl_cons, ih]
    cases call with
    | parameter key value =>
      show dest.list ++ [pairParameter (key, value)] ++ _ = _
      rw [List.append_assoc]
      rfl
    | metaData key value =>
      show dest.list ++ [_] ++ [_] ++ _ = _
      rw [List.append_assoc, List.append_assoc]
      rfl

theorem numberedPairs_sublist (calls : List SourceCall) (index : ℕ) :
    (numberedPairs index (metaDataOf calls)).Sublist
      (plainPairs index (calls.map SourceCall.direct)) := by
  induction calls generalizing index with
  | nil => exact List.Sublist.refl _
  | cons call calls ih =>
    cases call with
    | parameter key value => exact (ih index).cons _
    | metaData key value prepare =>
      exact (List.Sublist.refl (metaPairs index key value)).append (ih (index + 1))

/-! ## The keys of meta data -/

def metaStems : List Bytes := [str "plugin.meta.key", str "plugin.meta.value"]

/-- The key is `plugin.meta.key<digits>` or `plugin.meta.value<digits>`. -/
def isMetaKey (key : Bytes) : Bool :=
  metaStems.any fun stem =>
    stem.isPrefixOf key && (key.drop stem.length ≠ []) && (key.drop stem.length).all isdigit

/-- The keys of that form in a list of parameters. -/
def metaKeys (list : List RequestParameter) : List Bytes :=
  (list.map RequestParameter.key).filter isMetaKey

/-- The parameters of the calls that are no meta data, in order. -/
def ordinaryOf (calls : List SourceCall) : List (Bytes × Bytes) :=
  calls.filterMap fun
    | .parameter key value => some (key, value)
    | .metaData .. => none

/-- The keys of meta data that the destination holds before, or gets from ordinary parameters. -/
def heldKeys (calls : List SourceCall) (dest : RequestParameters) : List Bytes :=
  metaKeys (dest.list ++ (ordinaryOf calls).map pairParameter)

theorem isMetaKey_stem {stem : Bytes} (h : stem ∈ metaStems) (i : ℕ) :
    isMetaKey (stem ++ decimalNat i) = true := by
  refine List.any_eq_true.mpr ⟨stem, h, ?_⟩
  have hdigits : (decimalNat i).all isdigit = true :=
    List.all_eq_true.mpr fun c hc => isdigit_of_mem_decimalNat hc
  rw [List.drop_left, hdigits, Bool.and_true, Bool.and_eq_true]
  exact ⟨List.isPrefixOf_iff_prefix.mpr (List.prefix_append _ _),
    decide_eq_true (decimalNat_ne_nil i)⟩

theorem metaKeys_append (list list' : List RequestParameter) :
    metaKeys (list ++ list') = metaKeys list ++ metaKeys list' := by
  rw [metaKeys, List.map_append, List.filter_append]
  rfl

/-- The keys that are numbered from `index` on. -/
def numberedKeys (index count : ℕ) : List Bytes :=
  (List.range' index count).flatMap fun i => metaStems.map (· ++ decimalNat i)

theorem urlEncode_stem {stem : Bytes} (h : stem ∈ metaStems) (i : ℕ) :
    mfsTrackerUrlEncode (stem ++ decimalNat i) = stem ++ decimalNat i := by
  have hstem : ∀ stem ∈ metaStems, (0 : Byte) ∉ stem ∧ ∀ c ∈ stem, unreserved c := by
    decide +kernel
  obtain ⟨hnul, hplain⟩ := hstem stem h
  refine (urlEncode_eq_self_iff ?_).mpr fun c hc => ?_
  · rw [List.mem_append]
    exact fun hmem => hmem.elim hnul (notMem_decimalNat i (by decide))
  · rcases List.mem_append.mp hc with hc | hc
    · exact hplain c hc
    · exact unreserved_of_isdigit (isdigit_of_mem_decimalNat hc)

theorem metaKeys_metaPairs (index : ℕ) (key value : Bytes) :
    metaKeys ((metaPairs index key value).map pairParameter) =
      metaStems.map (· ++ decimalNat index) := by
  have hkey : str "plugin.meta.key" ∈ metaStems := List.mem_cons_self
  have hvalue : str "plugin.meta.value" ∈ metaStems := List.mem_cons_of_mem _ List.mem_cons_self
  simp only [metaKeys, metaPairs, pairParameter, List.map_cons, List.map_nil, urlEncode_stem hkey,
    urlEncode_stem hvalue, metaStems]
  rw [List.filter_cons_of_pos (isMetaKey_stem hkey index),
    List.filter_cons_of_pos (isMetaKey_stem hvalue index)]
  rfl

/-- Meta data that is numbered from `index` on has these keys. -/
theorem metaKeys_numberedPairs (index : ℕ) (metaData : List (Bytes × Bytes)) :
    metaKeys ((numberedPairs index metaData).map pairParameter) =
      numberedKeys index metaData.length := by
  induction metaData generalizing index with
  | nil => rfl
  | cons p metaData ih =>
    have hpairs : numberedPairs index (p :: metaData) =
        metaPairs index p.1 p.2 ++ numberedPairs (index + 1) metaData := rfl
    rw [hpairs, List.map_append, metaKeys_append, ih, metaKeys_metaPairs]
    rfl

theorem plainPairs_perm (calls : List SourceCall) (index : ℕ) :
    (plainPairs index (calls.map SourceCall.direct)).Perm
      (ordinaryOf calls ++ numberedPairs index (metaDataOf calls)) := by
  induction calls generalizing index with
  | nil => exact List.Perm.refl _
  | cons call calls ih =>
    cases call with
    | parameter key value => exact (ih index).cons _
    | metaData key value prepare =>
      show (metaPairs index key value ++ plainPairs (index + 1) (calls.map SourceCall.direct)).Perm
        (ordinaryOf calls ++ (metaPairs index key value ++
          numberedPairs (index + 1) (metaDataOf calls)))
      refine ((ih (index + 1)).append_left _).trans ?_
      rw [← List.append_assoc, ← List.append_assoc]
      exact List.perm_append_comm.append_right _

/-- After the calls on the destination, the keys are those held already and the numbered ones. -/
theorem metaKeys_perm (calls : List SourceCall) (dest : RequestParameters) :
    (metaKeys (directCalls calls dest).list).Perm
      (heldKeys calls dest ++ numberedKeys dest.metaCount (metaDataOf calls).length) := by
  rw [directCalls, list_foldl_direct, ← metaKeys_numberedPairs, heldKeys, ← metaKeys_append,
    List.append_assoc, ← List.map_append]
  exact ((((plainPairs_perm calls dest.metaCount).map pairParameter).append_left dest.list).map
    RequestParameter.key).filter isMetaKey

/-- A key tells its stem and its number. -/
theorem stem_append_injective {stem stem' : Bytes} (h : stem ∈ metaStems) (h' : stem' ∈ metaStems)
    {i j : ℕ} (heq : stem ++ decimalNat i = stem' ++ decimalNat j) : i = j := by
  have hsame : stem = stem' := by
    -- `k` and `v` stand in the same place
    have hletter := congrArg (fun key : Bytes => key.getD 12 0) heq
    rcases List.mem_pair.mp h with rfl | rfl <;> rcases List.mem_pair.mp h' with rfl | rfl
    · rfl
    · exact absurd hletter (show ¬ch 'k' = ch 'v' by decide)
    · exact absurd hletter (show ¬ch 'v' = ch 'k' by decide)
    · rfl
  rw [hsame] at heq
  exact decimalNat_injective (List.append_cancel_left heq)

theorem nodup_numberedKeys (index count : ℕ) : (numberedKeys index count).Nodup := by
  have hstems : metaStems.Nodup := by decide +kernel
  refine List.nodup_flatMap.mpr ⟨fun i _ => ?_, ?_⟩
  · exact hstems.map fun _ _ h => List.append_cancel_right h
  · refine (List.nodup_range' : (List.range' index count).Nodup).imp fun hne key hi hj => ?_
    obtain ⟨stem, hstem, rfl⟩ := List.mem_map.mp hi
    obtain ⟨stem', hstem', h⟩ := List.mem_map.mp hj
    exact hne (stem_append_injective hstem hstem' h.symm)

/-! ## The same request -/

/-- The keys of meta data that are there already are distinct, and none has one of the numbers
    that the meta data of the calls gets. -/
structure FreeKeys (calls : List SourceCall) (dest : RequestParameters) : Prop where
  distinct : (heldKeys calls dest).Nodup
  free : ∀ key ∈ numberedKeys dest.metaCount (metaDataOf calls).length, key ∉ heldKeys calls dest

/-- Copying `calls` into `dest` does what the calls on `dest` do: the same bytes, size and count
    of the meta data, which is numbered without gaps from the count of `dest` on; and no key of
    meta data is in the list twice. -/
structure SameRequest (calls : List SourceCall) (dest : RequestParameters) : Prop where
  bytes : ∀ cmd palloc, requestBytes cmd (copyCalls calls dest) palloc =
    requestBytes cmd (directCalls calls dest) palloc
  size : ∀ cmd, requestLength cmd (copyCalls calls dest) =
    requestLength cmd (directCalls calls dest)
  metaCount : (copyCalls calls dest).metaCount = (directCalls calls dest).metaCount
  numbered : ∃ added, (copyCalls calls dest).list = dest.list ++ added.map pairParameter ∧
    (numberedPairs dest.metaCount (metaDataOf calls)).Sublist added
  distinct : (metaKeys (copyCalls calls dest).list).Nodup

theorem nodup_metaKeys_iff (calls : List SourceCall) (dest : RequestParameters) :
    (metaKeys (directCalls calls dest).list).Nodup ↔ FreeKeys calls dest := by
  rw [(metaKeys_perm calls dest).nodup_iff, List.nodup_append']
  constructor
  · rintro ⟨hdistinct, -, hdisjoint⟩
    exact ⟨hdistinct, fun key hkey hheld => hdisjoint hheld hkey⟩
  · rintro ⟨hdistinct, hfree⟩
    exact ⟨hdistinct, nodup_numberedKeys _ _, fun key hheld hkey => hfree key hkey hheld⟩

/-- Ordinary parameters that are not named like meta data. -/
theorem metaKeys_plainPairs {calls : List AddCall}
    (h : ∀ key value, .parameter key value ∈ calls → isMetaKey (mfsTrackerUrlEncode key) = false)
    (index : ℕ) :
    metaKeys ((plainPairs index calls).map pairParameter) =
      numberedKeys index (metaCalls calls) := by
  induction calls generalizing index with
  | nil => rfl
  | cons call calls ih =>
    have hcalls := ih fun key value hmem => h key value (List.mem_cons_of_mem _ hmem)
    cases call with
    | parameter key value =>
      have hkey := h key value List.mem_cons_self
      rw [plainPairs, List.map_cons, metaKeys, List.map_cons,
        List.filter_cons_of_neg (by simp [pairParameter, hkey])]
      exact hcalls index
    | metaData key value =>
      have hcount : metaCalls (.metaData key value :: calls) = metaCalls calls + 1 :=
        List.countP_cons_of_pos rfl
      rw [plainPairs, List.map_append, metaKeys_append, metaKeys_metaPairs, hcalls, hcount]
      rfl

/-- The numbers are free in a destination that calls have filled, when no ordinary parameter is
    named like meta data. -/
theorem freeKeys_runCalls {before : List AddCall} {calls : List SourceCall}
    (hbefore : ∀ key value, .parameter key value ∈ before →
      isMetaKey (mfsTrackerUrlEncode key) = false)
    (hcalls : ∀ key value, .parameter key value ∈ calls →
      isMetaKey (mfsTrackerUrlEncode key) = false) : FreeKeys calls (runCalls before) := by
  have hcollected := runCalls_collected before
  have hordinary : metaKeys ((ordinaryOf calls).map pairParameter) = [] := by
    refine List.filter_eq_nil_iff.mpr fun key hkey => ?_
    obtain ⟨param, hparam, rfl⟩ := List.mem_map.mp hkey
    obtain ⟨p, hp, rfl⟩ := List.mem_map.mp hparam
    obtain ⟨call, hcall, hsome⟩ := List.mem_filterMap.mp hp
    cases call with
    | parameter key value =>
      rw [← Option.some.inj hsome]
      exact Bool.eq_false_iff.mp (hcalls key value hcall)
    | metaData key value prepare => cases hsome
  have hheld : heldKeys calls (runCalls before) = numberedKeys 0 (metaCalls before) := by
    rw [heldKeys, metaKeys_append, hordinary, List.append_nil, hcollected.list,
      metaKeys_plainPairs hbefore]
  refine ⟨hheld ▸ nodup_numberedKeys _ _, fun key hkey hmem => ?_⟩
  rw [hheld] at hmem
  obtain ⟨i, hi, hkey⟩ := List.mem_flatMap.mp hkey
  obtain ⟨j, hj, hmem⟩ := List.mem_flatMap.mp hmem
  obtain ⟨stem, hstem, rfl⟩ := List.mem_map.mp hkey
  obtain ⟨stem', hstem', heq⟩ := List.mem_map.mp hmem
  rw [hcollected.metaCount] at hi
  have hsame := stem_append_injective hstem' hstem heq
  rw [List.mem_range'_1] at hi hj
  omega

/-- Copying builds the same request, with every number once, exactly when no meta data of the
    source list has been prepared there and the numbers it gets are free. -/
theorem sameRequest_iff (calls : List SourceCall) (dest : RequestParameters) :
    SameRequest calls dest ↔
      (∀ call ∈ calls, call.isPrepared = false) ∧ FreeKeys calls dest := by
  constructor
  · intro hsame
    have hnone : ∀ call ∈ calls, call.isPrepared = false := by
      intro call hcall
      by_contra hprepared
      have hpos : 0 < calls.countP SourceCall.isPrepared :=
        List.countP_pos_iff.mpr ⟨call, hcall, Bool.eq_true_of_not_eq_false hprepared⟩
      have hcount := hsame.metaCount
      rw [metaCount_copyCalls, metaCount_directCalls] at hcount
      omega
    have hdistinct := hsame.distinct
    rw [copy_eq_direct hnone] at hdistinct
    exact ⟨hnone, (nodup_metaKeys_iff calls dest).mp hdistinct⟩
  · rintro ⟨h, hfree⟩
    have heq := copy_eq_direct h dest
    refine ⟨fun cmd palloc => by rw [heq], fun cmd => by rw [heq], by rw [heq],
      ⟨plainPairs dest.metaCount (calls.map SourceCall.direct), ?_, numberedPairs_sublist _ _⟩, ?_⟩
    · rw [heq]
      exact list_foldl_direct _ _
    · rw [heq]
      exact (nodup_metaKeys_iff calls dest).mpr hfree

/-- Prepared meta data arrives with the number of the source list and without a count. -/
theorem prepared_not_counted :
    ¬SameRequest [.metaData (str "meta1") (str "value1") true] mfsTrackerInitParameters ∧
      requestBytes (str "TEST") (copyCalls [.metaData (str "meta1") (str "value1") true]
          mfsTrackerInitParameters) (fun _ => 1) =
        str "TEST plugin.meta.key0=meta1&plugin.meta.value0=value1\r\n" ∧
      requestBytes (str "TEST") (directCalls [.metaData (str "meta1") (str "value1") true]
          mfsTrackerInitParameters) (fun _ => 1) =
        str "TEST plugin.meta.keys=1&plugin.meta.key0=meta1&plugin.meta.value0=value1\r\n" := by
  refine ⟨fun hsame => absurd hsame.metaCount (by decide +kernel), by decide +kernel,
    by decide +kernel⟩

/-- Copied into a list that holds prepared meta data, the next meta data gets its number again. -/
example : metaKeys (copyCalls [.metaData (str "meta2") (str "value2") false]
    (copyCalls [.metaData (str "meta1") (str "value1") true] mfsTrackerInitParameters)).list =
      [str "plugin.meta.key0", str "plugin.meta.value0", str "plugin.meta.key0",
        str "plugin.meta.value0"] := by
  decide +kernel

end MogileFs
