import MogileFs.Tracker.RequestLine

/-!
# The size of a request

`mfs_tracker_build_request` (`src/tracker.c`, lines 269–309) allocates `total_length + 1` bytes
and gives the socket `total_length` of them. It computes that number from totals which other
functions keep (lines 82–150), and takes one `&` less than there are parameters.

Results:
* `Filled.measured`: in every list a request is built from, the totals agree with the entries.
* `requestFits_iff`: what is written fits, and all of it is sent, unless the list is empty.
* `request_overruns`: without parameters the NUL is written behind the allocation.
-/

namespace MogileFs

/-! ## The lists -/

/-- The lists that the functions of the source fill; strings that are handed over have their true
    lengths. In a list that a request is built from all meta data is `prepared`. -/
inductive Filled : Bool → RequestParameters → Prop
  | fresh (prepared : Bool) : Filled prepared mfsTrackerInitParameters
  | addParameter {prepared : Bool} {parameters : RequestParameters} {key value : Bytes} :
    Filled prepared parameters → (0 : Byte) ∉ key → (0 : Byte) ∉ value →
      Filled prepared (mfsTrackerAddParameter parameters key value)
  | addParameterPointers {prepared : Bool} {parameters : RequestParameters} {key value : Bytes} :
    Filled prepared parameters → (0 : Byte) ∉ key → (0 : Byte) ∉ value →
      Filled prepared
        (mfsTrackerAddParameterPointers parameters key key.length value value.length)
  | addMetaData {prepared prepare : Bool} {parameters : RequestParameters} {key value : Bytes} :
    Filled prepared parameters → (0 : Byte) ∉ key → (0 : Byte) ∉ value →
      (prepared = true → prepare = true) →
      Filled prepared (mfsTrackerAddMetaData parameters key value prepare)
  | copyParameterPointers {prepared prepared' : Bool} {src dest : RequestParameters} :
    Filled prepared' src → Filled prepared dest →
      Filled prepared (mfsTrackerCopyParameterPointers src dest)

/-- Key and value are C strings, and the lengths are theirs where lengths are kept. -/
structure RequestParameter.TrueLengths (param : RequestParameter) : Prop where
  key : (0 : Byte) ∉ param.key
  value : (0 : Byte) ∉ param.value
  lengths : param.isMetadata = false →
    param.keyLength = param.key.length ∧ param.valueLength = param.value.length

/-- A property of the destination that every addition of strings keeps holds after copying. -/
theorem copyParameterPointers_induction {P : RequestParameters → Prop}
    (hpointers : ∀ dest key value, (0 : Byte) ∉ key → (0 : Byte) ∉ value → P dest →
      P (mfsTrackerAddParameterPointers dest key key.length value value.length))
    (hmeta : ∀ dest key value, (0 : Byte) ∉ key → (0 : Byte) ∉ value → P dest →
      P (mfsTrackerAddMetaData dest key value true))
    {src dest : RequestParameters} (hsrc : ∀ param ∈ src.list, param.TrueLengths) (hdest : P dest) :
    P (mfsTrackerCopyParameterPointers src dest) := by
  unfold mfsTrackerCopyParameterPointers
  refine List.foldlRecOn src.list _ hdest fun dest hdest param hparam => ?_
  obtain ⟨hkey, hvalue, hlengths⟩ := hsrc param hparam
  cases hflag : param.isMetadata with
  | true =>
    rw [if_pos rfl]
    exact hmeta dest _ _ hkey hvalue hdest
  | false =>
    rw [if_neg Bool.false_ne_true, (hlengths hflag).1, (hlengths hflag).2]
    exact hpointers dest _ _ hkey hvalue hdest

/-! ## True lengths -/

theorem nul_notMem_urlEncode (s : Bytes) : (0 : Byte) ∉ mfsTrackerUrlEncode s :=
  notMem_urlEncode s (by decide)

theorem trueLengths_addParameterPointers {parameters : RequestParameters} {key value : Bytes}
    (hkey : (0 : Byte) ∉ key) (hvalue : (0 : Byte) ∉ value)
    (h : ∀ param ∈ parameters.list, param.TrueLengths) :
    ∀ param ∈
      (mfsTrackerAddParameterPointers parameters key key.length value value.length).list,
        param.TrueLengths := by
  intro param hparam
  rcases List.mem_append.mp hparam with hparam | hparam
  · exact h param hparam
  · rw [List.mem_singleton.mp hparam]
    exact ⟨hkey, hvalue, fun _ => ⟨rfl, rfl⟩⟩

theorem trueLengths_addParameter {parameters : RequestParameters} (key value : Bytes)
    (h : ∀ param ∈ parameters.list, param.TrueLengths) :
    ∀ param ∈ (mfsTrackerAddParameter parameters key value).list, param.TrueLengths :=
  trueLengths_addParameterPointers (nul_notMem_urlEncode key) (nul_notMem_urlEncode value) h

theorem trueLengths_addMetaData {parameters : RequestParameters} {key value : Bytes}
    (prepare : Bool) (hkey : (0 : Byte) ∉ key) (hvalue : (0 : Byte) ∉ value)
    (h : ∀ param ∈ parameters.list, param.TrueLengths) :
    ∀ param ∈ (mfsTrackerAddMetaData parameters key value prepare).list, param.TrueLengths := by
  cases prepare with
  | true => exact trueLengths_addParameter _ _ (trueLengths_addParameter _ _ h)
  | false =>
    intro param hparam
    rcases List.mem_append.mp hparam with hparam | hparam
    · exact h param hparam
    · rw [List.mem_singleton.mp hparam]
      exact ⟨hkey, hvalue, nofun⟩

theorem Filled.trueLengths {prepared : Bool} {parameters : RequestParameters}
    (h : Filled prepared parameters) : ∀ param ∈ parameters.list, param.TrueLengths := by
  induction h with
  | fresh => exact fun param hparam => absurd hparam List.not_mem_nil
  | addParameter _ _ _ ih => exact trueLengths_addParameter _ _ ih
  | addParameterPointers _ hkey hvalue ih => exact trueLengths_addParameterPointers hkey hvalue ih
  | addMetaData _ hkey hvalue _ ih => exact trueLengths_addMetaData _ hkey hvalue ih
  | copyParameterPointers _ _ ihsrc ihdest =>
    exact copyParameterPointers_induction
      (P := fun dest => ∀ param ∈ dest.list, param.TrueLengths)
      (fun _ _ _ hkey hvalue => trueLengths_addParameterPointers hkey hvalue)
      (fun _ _ _ hkey hvalue => trueLengths_addMetaData true hkey hvalue) ihsrc ihdest

/-! ## Totals that agree -/

/-- The list consists of C strings that are sent as they are, and its totals agree with it. -/
def Sendable (parameters : RequestParameters) : Prop :=
  ∃ raw, Measured parameters raw ∧ ∀ p ∈ raw, (0 : Byte) ∉ p.1 ∧ (0 : Byte) ∉ p.2

theorem sendable_init : Sendable mfsTrackerInitParameters :=
  ⟨[], ⟨rfl, rfl, rfl⟩, fun _ hp => absurd hp List.not_mem_nil⟩

theorem length_rawPair (p : Bytes × Bytes) : (rawPair p).length = p.1.length + p.2.length + 1 := by
  rw [rawPair, List.length_append, List.length_cons]
  omega

theorem Sendable.addParameterPointers {parameters : RequestParameters} (h : Sendable parameters)
    {key value : Bytes} (hkey : (0 : Byte) ∉ key) (hvalue : (0 : Byte) ∉ value) :
    Sendable (mfsTrackerAddParameterPointers parameters key key.length value value.length) := by
  obtain ⟨raw, hmeasured, hraw⟩ := h
  refine ⟨raw ++ [(key, value)], ⟨?_, ?_, ?_⟩, fun p hp => ?_⟩
  · simp only [mfsTrackerAddParameterPointers, hmeasured.list, List.map_append,
      List.map_singleton, rawParameter]
  · simp only [mfsTrackerAddParameterPointers, hmeasured.count, List.length_append,
      List.length_singleton]
  · simp only [mfsTrackerAddParameterPointers, hmeasured.strlen, List.map_append,
      List.map_singleton, List.sum_append, List.sum_singleton, length_rawPair]
  · rcases List.mem_append.mp hp with hp | hp
    · exact hraw p hp
    · rw [List.mem_singleton.mp hp]
      exact ⟨hkey, hvalue⟩

theorem Sendable.addParameter {parameters : RequestParameters} (h : Sendable parameters)
    (key value : Bytes) : Sendable (mfsTrackerAddParameter parameters key value) :=
  h.addParameterPointers (nul_notMem_urlEncode key) (nul_notMem_urlEncode value)

theorem Sendable.addMetaData {parameters : RequestParameters} (h : Sendable parameters)
    (key value : Bytes) : Sendable (mfsTrackerAddMetaData parameters key value true) := by
  obtain ⟨raw, ⟨hlist, hcount, hstrlen⟩, hraw⟩ :=
    (h.addParameter (str "plugin.meta.key" ++ decimalNat parameters.metaCount) key).addParameter
      (str "plugin.meta.value" ++ decimalNat parameters.metaCount) value
  exact ⟨raw, ⟨hlist, hcount, hstrlen⟩, hraw⟩

/-- In every list a request is built from, the totals agree with the entries. -/
theorem Filled.measured {parameters : RequestParameters} {prepared : Bool}
    (h : Filled prepared parameters) (hprepared : prepared = true) : Sendable parameters := by
  induction h with
  | fresh => exact sendable_init
  | addParameter _ _ _ ih => exact (ih hprepared).addParameter _ _
  | addParameterPointers _ hkey hvalue ih =>
    exact (ih hprepared).addParameterPointers hkey hvalue
  | addMetaData _ _ _ hprepare ih =>
    rw [hprepare hprepared]
    exact (ih hprepared).addMetaData _ _
  | copyParameterPointers hsrc _ _ ihdest =>
    exact copyParameterPointers_induction
      (fun _ _ _ hkey hvalue hdest => hdest.addParameterPointers hkey hvalue)
      (fun _ key value _ _ hdest => hdest.addMetaData key value) hsrc.trueLengths (ihdest hprepared)

/-! ## What is written and what is sent -/

/-- Nothing is written outside the `total_length + 1` bytes of the allocation, `*size` is the
    length of the C string that is written, and the bytes that are sent end with CR LF. -/
structure RequestFits (cmd : Bytes) (parameters : RequestParameters) (palloc : ℕ → Byte) :
    Prop where
  inside : (mfsTrackerBuildRequest cmd parameters palloc).top ≤ requestLength cmd parameters + 1
  size : ∃ line, HoldsString (mfsTrackerBuildRequest cmd parameters palloc).memory line ∧
    requestLength cmd parameters = line.length
  ending : [CR, LF] <:+ requestBytes cmd parameters palloc

theorem nul_notMem_rawPairs {raw : List (Bytes × Bytes)}
    (h : ∀ p ∈ raw, (0 : Byte) ∉ p.1 ∧ (0 : Byte) ∉ p.2) : (0 : Byte) ∉ rawPairs raw := by
  induction raw with
  | nil => exact List.not_mem_nil
  | cons p raw ih =>
    have hpair : (0 : Byte) ∉ rawPair p := by
      obtain ⟨hkey, hvalue⟩ := h p List.mem_cons_self
      simp only [rawPair, List.mem_append, List.mem_cons, not_or]
      exact ⟨hkey, by decide, hvalue⟩
    by_cases hnil : raw = []
    · rw [hnil, rawPairs_singleton]
      exact hpair
    · rw [rawPairs_cons p hnil]
      simp only [List.mem_append, List.mem_cons, not_or]
      exact ⟨hpair, by decide, ih fun p hp => h p (List.mem_cons_of_mem _ hp)⟩

/-- The NUL is the last byte written. -/
theorem pos_le_top (cmd : Bytes) (parameters : RequestParameters) (palloc : ℕ → Byte) :
    (mfsTrackerBuildRequest cmd parameters palloc).pos ≤
      (mfsTrackerBuildRequest cmd parameters palloc).top :=
  le_max_right _ _

theorem requestFits_of_ne_nil {cmd : Bytes} (hcmd : (0 : Byte) ∉ cmd)
    {parameters : RequestParameters} (h : Sendable parameters) (hne : parameters.list ≠ [])
    (palloc : ℕ → Byte) : RequestFits cmd parameters palloc := by
  obtain ⟨raw, hmeasured, hstrings⟩ := h
  have hraw : raw ≠ [] := by
    rintro rfl
    exact hne hmeasured.list
  obtain ⟨hwrote, htop⟩ := hmeasured.buildRequest_wrote_text cmd palloc
  have hlen := hmeasured.requestLength_eq hraw cmd
  have hnul : (0 : Byte) ∉
      cmd ++ ch ' ' :: (metaCountParam parameters ++ rawPairs raw) ++ [CR, LF] := by
    simp only [List.mem_append, List.mem_cons, not_or]
    exact ⟨⟨hcmd, by decide, notMem_metaCountParam (by decide) (by decide) (by decide) parameters,
      nul_notMem_rawPairs hstrings⟩, by decide, by decide, List.not_mem_nil⟩
  have hsent : requestBytes cmd parameters palloc =
      cmd ++ ch ' ' :: (metaCountParam parameters ++ rawPairs raw) ++ [CR, LF] := by
    rw [requestBytes, hlen]
    exact hwrote.map_range rfl
  refine ⟨?_, ⟨_, hwrote.holdsString hnul, hlen⟩, ?_⟩
  · rw [hlen]
    exact htop.trans (by rw [hwrote.pos, List.length_append, List.length_singleton])
  · rw [hsent]
    exact List.suffix_append _ _

/-- The size agrees with what is written exactly when there are parameters. -/
theorem requestFits_iff {cmd : Bytes} (hcmd : (0 : Byte) ∉ cmd) {parameters : RequestParameters}
    (h : Filled true parameters) (palloc : ℕ → Byte) :
    RequestFits cmd parameters palloc ↔ parameters.list ≠ [] := by
  refine ⟨fun hfits hnil => ?_, fun hne => requestFits_of_ne_nil hcmd (h.measured rfl) hne palloc⟩
  obtain ⟨raw, hmeasured, -⟩ := h.measured rfl
  obtain rfl : raw = [] := List.map_eq_nil_iff.mp (hmeasured.list.symm.trans hnil)
  have hsize := hmeasured.requestLength_nil cmd
  obtain ⟨hwrote, -⟩ := hmeasured.buildRequest_wrote_text cmd palloc
  have hpos := hwrote.pos
  rw [List.length_append, List.length_singleton, ← hsize] at hpos
  have htop := pos_le_top cmd parameters palloc
  have hinside := hfits.inside
  omega

/-- The request of the source's own test. -/
theorem requestFits_iff_key :
    RequestFits (str "TEST")
        (mfsTrackerAddParameter mfsTrackerInitParameters (str "key") (str "value")) (fun _ => 1) ↔
      (mfsTrackerAddParameter mfsTrackerInitParameters (str "key") (str "value")).list ≠ [] :=
  requestFits_iff (by decide +kernel)
    (.addParameter (.fresh true) (by decide +kernel) (by decide +kernel)) (fun _ => 1)

/-- Without parameters the NUL is written behind the allocation, and the bytes that are sent end
    with CR. -/
theorem request_overruns :
    Filled true mfsTrackerInitParameters ∧
      ¬RequestFits (str "TEST") mfsTrackerInitParameters (fun _ => 1) ∧
      requestLength (str "TEST") mfsTrackerInitParameters + 1 <
        (mfsTrackerBuildRequest (str "TEST") mfsTrackerInitParameters fun _ => 1).top ∧
      requestBytes (str "TEST") mfsTrackerInitParameters (fun _ => 1) =
        str "TEST " ++ [CR] := by
  have htop : requestLength (str "TEST") mfsTrackerInitParameters + 1 <
      (mfsTrackerBuildRequest (str "TEST") mfsTrackerInitParameters fun _ => 1).top := by
    decide +kernel
  exact ⟨.fresh true, fun hfits => absurd hfits.inside (not_le_of_gt htop), htop,
    by decide +kernel⟩

end MogileFs
