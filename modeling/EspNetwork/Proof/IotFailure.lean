import EspNetwork.Proof.IotExtract

/-!
# What a result of zero means

`extract_json_value` returns the length of what it found, and its callers take zero for
"not present". An empty string, a value that is not a number and a length that is a
multiple of 2^32 also give zero, after a store.

* `failsCleanly_absent`, `_quoted`, `_open`, `_integer`, `_other`: what zero means on each
  way through the function.
* `toldApart_iff_short`: the condition for a text of ordinary length.
* `failsCleanly_iff`: **when a failed extraction leaves the buffer alone and means that
  nothing is there**, for every text, key and buffer.
-/

namespace EspNetwork.Iot

open CLib

variable {n : Nat} {json key rest : Bytes} {value : Arr n}

/-- A quoted text and its closing quote, and whatever follows. -/
def QuotedString (rest : Bytes) : Prop := ∃ v t, rest = chr '"' :: v ++ chr '"' :: t ∧ chr '"' ∉ v

/-- Zero is returned with the buffer unchanged, and only where no string and no integer
follows the first occurrence of the key. -/
def FailsCleanly (json key : Bytes) (value : Arr n) : Prop :=
  ∀ out, extractJsonValue json key value = some (0, out) →
    out = value ∧ ∀ rest, Follows json key rest → ¬ QuotedString rest ∧ ¬ DecimalInteger rest

/-- What follows the key is told apart from a failure: a string or an integer by its
length, unless there is no room for it; anything else by the text `0` that is already
there, unless there is no room for it. -/
structure ToldApart (value : Arr n) (rest : Bytes) : Prop where
  quoted : ∀ v t, rest = chr '"' :: v ++ chr '"' :: t → chr '"' ∉ v → v.length % 2 ^ 32 ≠ 0 ∨ n = 0
  integer : DecimalInteger rest → (strtol rest).2 % 2 ^ 32 ≠ 0 ∨ n ≤ (printLd (strtol rest).1).length
  other : rest.head? ≠ some (chr '"') → ¬ DecimalInteger rest → [48, 0] <+: value.data ∨ n < 2

/-! ## What follows the key -/

theorem follows_unique {rest' : Bytes} (hk : key.length ≤ MAX_KEY_SIZE) (h : Follows json key rest)
    (h' : Follows json key rest') : rest = rest' := by
  obtain ⟨p, hp, hr⟩ := (atValue_iff_follows hk).2 h
  obtain ⟨p', hp', hr'⟩ := (atValue_iff_follows hk).2 h'
  obtain rfl := Option.some.inj (hp.symm.trans hp')
  exact hr.symm.trans hr'

theorem follows_forall {P : Bytes → Prop} (hk : key.length ≤ MAX_KEY_SIZE) (h : Follows json key rest) :
    (∀ r, Follows json key r → P r) ↔ P rest :=
  ⟨fun hall => hall rest h, fun hP _ hr => follows_unique hk h hr ▸ hP⟩

theorem not_follows (hk : key.length ≤ MAX_KEY_SIZE) (h : strstr json (searchKey key) = none) : ¬ Follows json key rest := by
  intro hr
  obtain ⟨p, hp, -⟩ := (atValue_iff_follows hk).2 hr
  exact absurd (h.symm.trans hp) nofun

/-- White space has been skipped. -/
theorem head_not_isspace (h : Follows json key rest) : ∀ c ∈ rest.head?, isspace c = false := by
  obtain ⟨a, b, -, -, rfl⟩ := h
  intro c hc
  have := List.head?_dropWhile_not isspace b
  rw [Option.mem_def.1 hc] at this
  simpa using this

theorem not_integer_of_quote {s : Bytes} : ¬ DecimalInteger (chr '"' :: s) := by
  rintro ⟨sign, ds, r, h, hsign, hne, hd⟩
  obtain ⟨d, ds, rfl⟩ := List.exists_cons_of_ne_nil hne
  have hd0 := hd d List.mem_cons_self
  rcases hsign with rfl | rfl | rfl
  · obtain rfl : chr '"' = d := (List.cons.inj h).1
    exact absurd hd0 (by decide)
  · exact absurd (List.cons.inj h).1 (by decide)
  · exact absurd (List.cons.inj h).1 (by decide)

/-- **In a text shorter than 2^32 bytes only an empty string, and a value that is neither a
string nor an integer, are not told apart.** -/
theorem toldApart_iff_short (hfollows : Follows json key rest) (hlen : rest.length < 2 ^ 32) (hn : 2 ≤ n) :
    ToldApart value rest ↔ (∀ t, rest ≠ chr '"' :: chr '"' :: t) ∧
      (rest.head? ≠ some (chr '"') → ¬ DecimalInteger rest → [48, 0] <+: value.data) := by
  have hsp := head_not_isspace hfollows
  constructor
  · intro h
    refine ⟨fun t he => ?_, fun hq hi => (h.other hq hi).resolve_right (not_lt.2 hn)⟩
    rcases h.quoted [] t he List.not_mem_nil with h0 | h0
    · exact h0 rfl
    · omega
  · rintro ⟨hempty, hother⟩
    refine ⟨fun v t he hv => .inl ?_, fun hi => .inl ?_, fun hq hi => .inl (hother hq hi)⟩
    · have hne : v.length ≠ 0 := by
        intro h0
        obtain rfl := List.eq_nil_of_length_eq_zero h0
        exact hempty t he
      have hlength := congrArg List.length he
      simp only [List.length_append, List.length_cons] at hlength
      omega
    · have hpos := strtol_of_integer hsp hi
      have hle := strtol_length_le hsp
      omega

/-! ## The ways through the function -/

theorem failsCleanly_absent (hk : key.length ≤ MAX_KEY_SIZE) (h : strstr json (searchKey key) = none) :
    FailsCleanly json key value := by
  intro out hout
  rw [extract_absent h, Option.some.injEq, Prod.mk.injEq] at hout
  exact ⟨hout.2.symm, fun rest hr => absurd hr (not_follows hk h)⟩

theorem failsCleanly_open {v : Bytes} (hk : key.length ≤ MAX_KEY_SIZE) (h : AtValue json key (chr '"' :: v))
    (hv : chr '"' ∉ v) : FailsCleanly json key value := by
  intro out hout
  rw [extract_open h hv, Option.some.injEq, Prod.mk.injEq] at hout
  refine ⟨hout.2.symm, (follows_forall hk ((atValue_iff_follows hk).1 h)).2 ⟨?_, not_integer_of_quote⟩⟩
  rintro ⟨u, t, he, -⟩
  have := (List.cons.inj he).2
  exact hv (by simp [this])

/-- A string has a length of zero as an `int`, or it is reported. -/
theorem failsCleanly_quoted {v t : Bytes} (hk : key.length ≤ MAX_KEY_SIZE)
    (h : AtValue json key (chr '"' :: v ++ chr '"' :: t)) (hv : chr '"' ∉ v) :
    FailsCleanly json key value ↔ v.length % 2 ^ 32 ≠ 0 ∨ n = 0 := by
  have hfollows := (atValue_iff_follows hk).1 h
  rcases toInt_cases v.length with ⟨-, hint⟩ | ⟨hge, hint⟩
  · have hextract : extractJsonValue json key value = _ := extract_wrapped h hv hint
    constructor
    · intro hclean
      by_contra! hno
      obtain ⟨h0, hn⟩ := hno
      -- one NUL is stored, and the string is there
      rw [h0, List.take_zero] at hextract
      obtain ⟨out, hout⟩ := exists_strcpy value ⟨0, n⟩ [] (by simp) (Nat.pos_of_ne_zero hn)
      rw [hout] at hextract
      exact ((hclean out hextract).2 _ hfollows).1 ⟨v, t, rfl, hv⟩
    · rintro (hne | rfl) out hout
      · rw [hextract] at hout
        obtain ⟨a, -, ha⟩ := Option.map_eq_some_iff.1 hout
        have := (Prod.mk.inj ha).1
        omega
      · rw [hextract] at hout
        obtain ⟨a, ha, -⟩ := Option.map_eq_some_iff.1 hout
        exact absurd ((strcpyField_strict (by simp)).1 ⟨a, ha⟩) (Nat.not_lt_zero _)
  · -- a negative length
    have hextract : extractJsonValue json key value = none := extract_negative h hv (by omega)
    refine iff_of_true (fun out hout => absurd (hextract.symm.trans hout) nofun) (.inl (by omega))

/-- An integer has a length of zero as an `int`, or it is reported. -/
theorem failsCleanly_integer (hk : key.length ≤ MAX_KEY_SIZE) (h : AtValue json key rest)
    (hq : rest.head? ≠ some (chr '"')) (hi : DecimalInteger rest) : FailsCleanly json key value ↔
      (strtol rest).2 % 2 ^ 32 ≠ 0 ∨ n ≤ (printLd (strtol rest).1).length := by
  have hfollows := (atValue_iff_follows hk).1 h
  have hextract : extractJsonValue json key value = _ := extract_number h hq
  have hfits : (value.store 0 (printLd (strtol rest).1 ++ [0])).isSome ↔ _ := Arr.store_isSome_iff
  rw [List.length_append, List.length_singleton] at hfits
  have hint := toInt_cases (strtol rest).2
  constructor
  · intro hclean
    by_contra! hno
    obtain ⟨out, hout⟩ := Option.isSome_iff_exists.1 (hfits.2 (by omega))
    have hzero : toInt (strtol rest).2 = 0 := by omega
    rw [hout, hzero] at hextract
    exact ((hclean out hextract).2 _ hfollows).2 hi
  · intro hcond out hout
    rw [hextract] at hout
    obtain ⟨a, ha, hpair⟩ := Option.map_eq_some_iff.1 hout
    have hzero := (Prod.mk.inj hpair).1
    have hroom := hfits.1 (by rw [ha]; rfl)
    omega

/-- Anything else is stored as the number zero. -/
theorem failsCleanly_other (hk : key.length ≤ MAX_KEY_SIZE) (h : AtValue json key rest)
    (hq : rest.head? ≠ some (chr '"')) (hi : ¬ DecimalInteger rest) :
    FailsCleanly json key value ↔ [48, 0] <+: value.data ∨ n < 2 := by
  have hfollows := (atValue_iff_follows hk).1 h
  have hextract : extractJsonValue json key value = _ := extract_number h hq
  have hzero : printLd 0 ++ [0] = [48, 0] := by decide
  rw [strtol_of_not_integer (head_not_isspace hfollows) hi, hzero] at hextract
  have hsize := value.size_eq
  constructor
  · intro hclean
    by_contra! hno
    obtain ⟨out, hout⟩ := Arr.exists_store value 0 [48, 0] hno.2
    rw [hout] at hextract
    have hsame := (hclean out hextract).1
    have hdata := (Arr.store_eq_some_iff.1 hout).2
    rw [hsame] at hdata
    exact hno.1 (List.prefix_iff_eq_append.2 hdata.symm)
  · intro hcond out hout
    rw [hextract] at hout
    obtain ⟨a, ha, hpair⟩ := Option.map_eq_some_iff.1 hout
    obtain ⟨hroom, hdata⟩ := Arr.store_eq_some_iff.1 ha
    obtain rfl := (Prod.mk.inj hpair).2
    refine ⟨?_, (follows_forall hk hfollows).2 ⟨?_, hi⟩⟩
    · have hpre : [48, 0] <+: value.data := hcond.resolve_right (not_lt.2 hroom)
      have hsame : a.data = value.data := hdata.trans (List.prefix_iff_eq_append.1 hpre)
      cases a
      cases value
      rw [Arr.mk.injEq]
      exact hsame
    · rintro ⟨v, t, rfl, -⟩
      exact hq rfl

/-! ## Which way is taken -/

/-- **When a failed extraction means that nothing is there.** -/
theorem failsCleanly_iff (json : Bytes) (value : Arr n) (hk : key.length ≤ MAX_KEY_SIZE) :
    FailsCleanly json key value ↔ ∀ rest, Follows json key rest → ToldApart value rest := by
  rcases extract_cases json key with h | ⟨v, t, h, hv⟩ | ⟨v, h, hv⟩ | ⟨rest, h, hq⟩
  · exact iff_of_true (failsCleanly_absent hk h) fun rest hr => absurd hr (not_follows hk h)
  · rw [follows_forall hk ((atValue_iff_follows hk).1 h), failsCleanly_quoted hk h hv]
    constructor
    · intro hcond
      refine ⟨fun v' t' he hv' => ?_, fun hi => absurd hi not_integer_of_quote, fun hq => absurd rfl hq⟩
      rw [← (split_unique hv hv' (List.cons.inj he).2).1]
      exact hcond
    · exact fun ht => ht.quoted v t rfl hv
  · rw [follows_forall hk ((atValue_iff_follows hk).1 h)]
    refine iff_of_true (failsCleanly_open hk h hv) ⟨fun v' t' he hv' => ?_, fun hi => absurd hi not_integer_of_quote,
      fun hq => absurd rfl hq⟩
    have := (List.cons.inj he).2
    exact absurd (by simp [this]) hv
  · rw [follows_forall hk ((atValue_iff_follows hk).1 h)]
    have hnoquote : ∀ v t, rest ≠ chr '"' :: v ++ chr '"' :: t := by
      rintro v t rfl
      exact hq rfl
    by_cases hi : DecimalInteger rest
    · rw [failsCleanly_integer hk h hq hi]
      exact ⟨fun hcond => ⟨fun v t he => absurd he (hnoquote v t), fun _ => hcond, fun _ hno => absurd hi hno⟩,
        fun ht => ht.integer hi⟩
    · rw [failsCleanly_other hk h hq hi]
      exact ⟨fun hcond => ⟨fun v t he => absurd he (hnoquote v t), fun hyes => absurd hyes hi, fun _ _ => hcond⟩,
        fun ht => ht.other hq hi⟩

/-- A string whose closing quote is missing leaves the buffer alone. -/
theorem failsCleanly_iff_open : FailsCleanly (bytes "\"status\":\"on") (bytes "status") (Arr.zeros 64) := by
  refine (failsCleanly_iff _ _ (by decide)).2 ?_
  have hfollows : Follows (bytes "\"status\":\"on") (bytes "status") (bytes "\"on") :=
    ⟨[], bytes "\"on", by decide, fun _ _ _ => Nat.zero_le _, by decide⟩
  refine (follows_forall (by decide) hfollows).2 ⟨fun v t he hv => ?_, fun hi => absurd hi not_integer_of_quote, fun hq => ?_⟩
  · have htail : bytes "on" = v ++ chr '"' :: t := (List.cons.inj he).2
    have hmem : chr '"' ∈ bytes "on" := by simp [htail]
    exact absurd hmem (by decide)
  · exact absurd rfl hq

/-- An empty string is there, and zero is returned; for `null` the text `0` is stored. -/
theorem empty_and_null : ¬ FailsCleanly (bytes "\"status\":\"\"") (bytes "status") (Arr.zeros 64) ∧
    ¬ FailsCleanly (bytes "\"status\":null") (bytes "status") (Arr.zeros 64) := by
  constructor
  · intro h
    have hout : extractJsonValue (bytes "\"status\":\"\"") (bytes "status") (Arr.zeros 64) = some (0, Arr.zeros 64) := by
      decide +kernel
    refine ((h _ hout).2 (bytes "\"\"") ?_).1 ⟨[], [], by decide, List.not_mem_nil⟩
    exact ⟨[], bytes "\"\"", by decide, fun _ _ _ => Nat.zero_le _, by decide⟩
  · intro h
    have hout : (extractJsonValue (bytes "\"status\":null") (bytes "status") (Arr.zeros 64)).map
        (fun r => decide (r.1 = 0 ∧ r.2 ≠ Arr.zeros 64)) = some true := by decide +kernel
    obtain ⟨⟨r, out⟩, hr, hne⟩ := Option.map_eq_some_iff.1 hout
    obtain ⟨rfl, hne⟩ := of_decide_eq_true hne
    exact hne (h out hr).1

end EspNetwork.Iot
