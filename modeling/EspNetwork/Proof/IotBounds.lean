import EspNetwork.Proof.IotExtract

/-!
# How much an extraction stores

A text built from four parts as in `FuzzJsonKeyValue`: any bytes, a key between quotes and
a colon, a value between quotes, any bytes. Where the first match of the search text is
not the intended one, a quote of the key ends what it finds.

* `quoted_length_le`: a quoted text that is found is no longer than one of the parts.
* `bounded_iff`: **the extraction stores at most one byte more than the longest part, and
  20 for a number, iff the length of what it finds fits in an `int`**, whatever the parts are.
-/

namespace EspNetwork.Iot

open CLib

variable {n : Nat} {pre key val suf json : Bytes}

/-- The text `FuzzJsonKeyValue` builds, as `c_str()` passes it. -/
def fuzzJson (pre key val suf : Bytes) : Bytes :=
  cstr (pre ++ [chr '"'] ++ key ++ [chr '"', chr ':', chr '"'] ++ val ++ [chr '"'] ++ suf)

/-! ## Where a NUL cuts the text -/

theorem fuzzJson_nul_pre (h : 0 ∈ pre) (key val suf : Bytes) : fuzzJson pre key val suf = cstr pre := by
  unfold fuzzJson
  simp only [List.append_assoc]
  exact cstr_append_of_mem h _

theorem fuzzJson_nul_key (hp : 0 ∉ pre) (hk : 0 ∈ key) (val suf : Bytes) :
    fuzzJson pre key val suf = pre ++ chr '"' :: cstr key := by
  unfold fuzzJson
  simp only [List.append_assoc]
  rw [cstr_append_of_not_mem hp, cstr_append_of_not_mem (by decide), cstr_append_of_mem hk]
  rfl

theorem fuzzJson_eq (hp : 0 ∉ pre) (hk : 0 ∉ key) (val suf : Bytes) :
    fuzzJson pre key val suf = pre ++ keyText key ++ chr '"' :: cstr (val ++ chr '"' :: suf) := by
  unfold fuzzJson keyText
  have hmid : (0 : Byte) ∉ [chr '"', chr ':', chr '"'] := by decide
  simp only [List.append_assoc]
  rw [cstr_append_of_not_mem hp, cstr_append_of_not_mem (by decide), cstr_append_of_not_mem hk,
    cstr_append_of_not_mem hmid]
  rfl

/-! ## Quotes -/

/-- A quoted text ends at the next quote. -/
theorem next_quote {x v t : Bytes} {i : Nat} (hv : chr '"' ∉ v) (hi : x.length < i)
    (h : (x ++ chr '"' :: v ++ chr '"' :: t)[i]? = some (chr '"')) : x.length + 1 + v.length ≤ i := by
  by_contra hlt
  have hin : i - x.length - 1 < v.length := by omega
  have hget : (x ++ chr '"' :: v ++ chr '"' :: t)[i]? = v[i - x.length - 1]? := by
    rw [List.getElem?_append_left (by simp; omega), List.getElem?_append_right (by omega),
      List.getElem?_cons, if_neg (by omega)]
  rw [hget] at h
  exact hv (List.mem_of_getElem? h)

theorem getElem?_at {l x y : Bytes} {c : Byte} {i : Nat} (hl : l = x ++ c :: y) (hi : i = x.length) : l[i]? = some c := by
  rw [hl, hi, List.getElem?_append_right (le_refl _), Nat.sub_self]
  rfl

/-- The quotes and the colon around the key. -/
theorem keyText_marks (h : json = pre ++ keyText key ++ chr '"' :: suf) :
    json[pre.length]? = some (chr '"') ∧ json[pre.length + 1 + key.length]? = some (chr '"') ∧
    json[pre.length + 2 + key.length]? = some (chr ':') ∧ json[pre.length + 3 + key.length]? = some (chr '"') := by
  have hj : json = pre ++ chr '"' :: (key ++ chr '"' :: chr ':' :: chr '"' :: suf) := by
    rw [h]
    simp [keyText]
  refine ⟨getElem?_at hj rfl, ?_, ?_, ?_⟩
  · refine getElem?_at (x := pre ++ chr '"' :: key) (y := chr ':' :: chr '"' :: suf) ?_ ?_
    · rw [hj]
      simp
    · simp
      omega
  · refine getElem?_at (x := pre ++ chr '"' :: key ++ [chr '"']) (y := chr '"' :: suf) ?_ ?_
    · rw [hj]
      simp
    · simp
      omega
  · refine getElem?_at (x := pre ++ keyText key) (y := suf) h ?_
    simp [keyText]
    omega

/-- White space does not reach past a byte that is none. -/
theorem white_stops {x ws r : Bytes} {i : Nat} {c : Byte} (hws : ∀ b ∈ ws, isspace b = true) (hi : x.length ≤ i)
    (h : (x ++ ws ++ r)[i]? = some c) (hc : isspace c = false) : x.length + ws.length ≤ i := by
  by_contra hlt
  have hget : (x ++ ws ++ r)[i]? = ws[i - x.length]? := by
    rw [List.getElem?_append_left (by rw [List.length_append]; omega), List.getElem?_append_right hi]
  rw [hget] at h
  rw [hws c (List.mem_of_getElem? h)] at hc
  cases hc

/-! ## What is found -/

/-- The match and the quoted text lie in the text before the value. -/
theorem quoted_length_early {v t : Bytes} (hk : (cstr key).length ≤ MAX_KEY_SIZE)
    (hat : AtValue json (cstr key) (chr '"' :: v ++ chr '"' :: t)) (hlen : json.length ≤ pre.length + 1 + (cstr key).length) :
    v.length ≤ pre.length := by
  obtain ⟨a, ws, hj, -, -⟩ := (atValue_iff hk).1 hat
  have hlength := congrArg List.length hj
  simp only [keyText, List.length_append, List.length_cons, List.length_nil] at hlength
  omega

/-- The value is a string up to its first quote or NUL. -/
theorem quoted_length_value {v t : Bytes} (hv : chr '"' ∉ v) (h : cstr (val ++ chr '"' :: suf) = v ++ chr '"' :: t) :
    v.length ≤ val.length := by
  by_cases h0 : 0 ∈ val
  · rw [cstr_append_of_mem h0] at h
    have hlength := congrArg List.length h
    have hle := length_cstr_le val
    rw [List.length_append] at hlength
    omega
  · rw [cstr_append_of_not_mem h0, cstr_cons (by decide)] at h
    by_contra hlt
    -- the closing quote would be inside the text
    have hquote := getElem?_at (i := val.length) h.symm rfl
    rw [List.getElem?_append_left (not_le.1 hlt)] at hquote
    exact hv (List.mem_of_getElem? hquote)

/-- **A quoted text that is found is no longer than one of the parts.** -/
theorem quoted_length_le {v t : Bytes} (hkey : 1 ≤ key.length) (hk : key.length ≤ MAX_KEY_SIZE)
    (hat : AtValue (fuzzJson pre key val suf) (cstr key) (chr '"' :: v ++ chr '"' :: t)) (hv : chr '"' ∉ v) :
    v.length ≤ max pre.length (max key.length val.length) := by
  have hk' : (cstr key).length ≤ MAX_KEY_SIZE := (length_cstr_le key).trans hk
  by_cases hp : 0 ∈ pre
  · rw [fuzzJson_nul_pre hp] at hat
    have hle := length_cstr_le pre
    have : v.length ≤ pre.length := quoted_length_early hk' hat (by omega)
    omega
  by_cases h0 : 0 ∈ key
  · rw [fuzzJson_nul_key hp h0] at hat
    have : v.length ≤ pre.length := quoted_length_early hk' hat (by simp; omega)
    omega
  -- the intended match is there; the first one is not behind it
  have hj := fuzzJson_eq hp h0 val suf
  have hself : cstr key = key := cstr_eq_self h0
  rw [hself] at hat
  obtain ⟨a, ws, hsplit, hmin, hws⟩ := (atValue_iff hk).1 hat
  have hle := hmin _ _ hj
  obtain ⟨hopen, hclose, hcolon, hvalue⟩ := keyText_marks hj
  have hkeyLen : (keyText key).length = key.length + 3 := by simp [keyText]
  have hstart : (a ++ keyText key ++ ws).length = a.length + (key.length + 3) + ws.length := by
    rw [List.length_append, List.length_append, hkeyLen]
  rcases Nat.lt_or_eq_of_le hle with hlt | heq
  · -- the text opens before the colon of the intended match
    have hquote : (fuzzJson pre key val suf)[(a ++ keyText key ++ ws).length]? = some (chr '"') :=
      getElem?_at (y := v ++ chr '"' :: t) (by rw [hsplit]; simp) rfl
    have hstop : (a ++ keyText key).length + ws.length ≤ pre.length + 2 + key.length := by
      refine white_stops (r := chr '"' :: v ++ chr '"' :: t) (c := chr ':') hws ?_ ?_ (by decide)
      · rw [List.length_append, hkeyLen]
        omega
      · rw [← hcolon, hsplit]
        simp
    have hne : (a ++ keyText key ++ ws).length ≠ pre.length + 2 + key.length := by
      intro he
      rw [he, hcolon] at hquote
      exact absurd (Option.some.inj hquote) (by decide)
    rw [List.length_append, hkeyLen] at hstop
    rw [hsplit] at hopen hclose hvalue
    -- the next quote is one of the marks
    rcases Nat.lt_trichotomy (a ++ keyText key ++ ws).length (pre.length + 1 + key.length) with hq | hq | hq
    · by_cases hpre : (a ++ keyText key ++ ws).length < pre.length
      · have := next_quote hv hpre hopen
        omega
      · have := next_quote hv hq hclose
        omega
    · have := next_quote hv (i := pre.length + 3 + key.length) (by omega) hvalue
      omega
    · omega
  · -- the intended match
    have hsame : pre ++ keyText key ++ chr '"' :: cstr (val ++ chr '"' :: suf) =
        a ++ (keyText key ++ (ws ++ (chr '"' :: v ++ chr '"' :: t))) := by
      rw [← hj, hsplit]
      simp
    rw [List.append_assoc] at hsame
    have hrest := List.append_cancel_left (List.append_inj hsame heq.symm).2
    cases ws with
    | nil =>
      have := quoted_length_value hv (List.cons.inj hrest).2
      omega
    | cons b ws =>
      have hb := hws b List.mem_cons_self
      rw [← (List.cons.inj hrest).1] at hb
      exact absurd hb (by decide)

/-! ## What is stored -/

/-- One byte more than the longest part, and room for a 64-bit `long`. -/
def storeBound (pre key val : Bytes) : Nat := 1 + max pre.length (max key.length (max val.length 20))

/-- Whatever array of that size is passed, the extraction does not store behind the bound,
and where it reports something, the string it leaves is not empty. -/
def Bounded (pre key val suf : Bytes) : Prop :=
  ∀ n (out : Arr n), storeBound pre key val ≤ n → ∃ r out', extractJsonValue (fuzzJson pre key val suf) (cstr key) out =
    some (r, out') ∧ out'.data.drop (storeBound pre key val) = out.data.drop (storeBound pre key val) ∧
    (0 < r → cstr out'.data ≠ [])

/-- The quoted text that is found, if any, has a length that is not negative as an `int`. -/
def FoundFits (pre key val suf : Bytes) : Prop :=
  ∀ v t, Follows (fuzzJson pre key val suf) (cstr key) (chr '"' :: v ++ chr '"' :: t) → chr '"' ∉ v →
    v.length % 2 ^ 32 < 2 ^ 31

/-- The expectations of `FuzzJsonKeyValue` on its array. -/
def FuzzExpects (pre key val suf : Bytes) : Prop :=
  ∃ r out, extractJsonValue (fuzzJson pre key val suf) (cstr key) (Arr.zeros MAX_VALUE_SIZE) = some (r, out) ∧
    (0 < r → (cstr out.data).length ≤ MAX_VALUE_SIZE - 1 ∧ 0 < (cstr out.data).length)

/-- A text without NUL and its terminator, stored below a bound. -/
theorem stored_string {out out' : Arr n} {s : Bytes} {k : Nat} (h : out.store 0 (s ++ [0]) = some out') (hs : 0 ∉ s)
    (hk : s.length + 1 ≤ k) : out'.data.drop k = out.data.drop k ∧ cstr out'.data = s := by
  refine ⟨Arr.drop_store h ?_, ?_⟩
  · rw [List.length_append, List.length_singleton]
    omega
  · have hstr := Arr.cstr_store h hs
    rwa [List.drop_zero] at hstr

/-- **The extraction stores no more than the bound.** -/
theorem extract_bounded (out : Arr n) (hkey : 1 ≤ key.length) (hk : key.length ≤ MAX_KEY_SIZE)
    (hfits : FoundFits pre key val suf) (hn : storeBound pre key val ≤ n) :
    ∃ r out', extractJsonValue (fuzzJson pre key val suf) (cstr key) out = some (r, out') ∧
      out'.data.drop (storeBound pre key val) = out.data.drop (storeBound pre key val) ∧
      (0 < r → cstr out'.data ≠ [] ∧ (cstr out'.data).length < storeBound pre key val) := by
  have hk' : (cstr key).length ≤ MAX_KEY_SIZE := (length_cstr_le key).trans hk
  rcases extract_cases (fuzzJson pre key val suf) (cstr key) with h | ⟨v, t, h, hv⟩ | ⟨v, h, hv⟩ | ⟨rest, h, hq⟩
  · exact ⟨0, out, extract_absent h, rfl, fun h0 => absurd h0 (lt_irrefl _)⟩
  · have hlen := quoted_length_le hkey hk h hv
    have hint := (toInt_cases v.length).resolve_right fun hneg => by
      have := hfits v t ((atValue_iff_follows hk').1 h) hv
      omega
    have hshort : (v.take (v.length % 2 ^ 32)).length + 1 ≤ storeBound pre key val := by
      rw [List.length_take]
      unfold storeBound
      omega
    obtain ⟨out', hout⟩ := exists_strcpy out ⟨0, n⟩ (v.take (v.length % 2 ^ 32)) (by simp) (lt_of_lt_of_le hshort hn)
    -- the text has no NUL
    have h0 : 0 ∉ v.take (v.length % 2 ^ 32) := by
      obtain ⟨a, ws, hj, -, -⟩ := (atValue_iff hk').1 h
      intro hmem
      have hjson : 0 ∈ fuzzJson pre key val suf := by
        rw [hj]
        simp [List.mem_of_mem_take hmem]
      exact not_mem_cstr _ hjson
    obtain ⟨hdrop, hstr⟩ := stored_string (strcpyField_store hout) h0 hshort
    refine ⟨_, out', by rw [extract_wrapped h hv hint.2, hout]; rfl, hdrop, fun hr => ?_⟩
    rw [hstr]
    refine ⟨fun hnil => ?_, hshort⟩
    have hzero := congrArg List.length hnil
    have hmod := Nat.mod_le v.length (2 ^ 32)
    rw [List.length_take, List.length_nil] at hzero
    omega
  · exact ⟨0, out, extract_open h hv, rfl, fun h0 => absurd h0 (lt_irrefl _)⟩
  · have hlen := length_printLd_le (strtol_range rest).1 (strtol_range rest).2
    have hshort : (printLd (strtol rest).1).length + 1 ≤ storeBound pre key val := by
      unfold storeBound
      omega
    obtain ⟨out', hout⟩ := Arr.exists_store out 0 (printLd (strtol rest).1 ++ [0]) (by
      rw [List.length_append, List.length_singleton]
      omega)
    obtain ⟨hdrop, hstr⟩ := stored_string hout (not_mem_printLd (by decide) (by decide) _) hshort
    refine ⟨_, out', by rw [extract_number h hq, hout]; rfl, hdrop, fun _ => ?_⟩
    rw [hstr]
    exact ⟨printLd_ne_nil _, hshort⟩

/-- Parts shorter than 2^31 bytes. -/
theorem foundFits_of_short (hkey : 1 ≤ key.length) (hk : key.length ≤ MAX_KEY_SIZE) (hp : pre.length < 2 ^ 31)
    (hv : val.length < 2 ^ 31) : FoundFits pre key val suf := by
  intro v t h hq
  have hk' : (cstr key).length ≤ MAX_KEY_SIZE := (length_cstr_le key).trans hk
  have hlen := quoted_length_le hkey hk ((atValue_iff_follows hk').2 h) hq
  unfold MAX_KEY_SIZE at hk
  omega

/-- A length that is negative as an `int` leaves every array. -/
theorem foundFits_of_bounded (hk : key.length ≤ MAX_KEY_SIZE) (hb : Bounded pre key val suf) : FoundFits pre key val suf := by
  have hk' : (cstr key).length ≤ MAX_KEY_SIZE := (length_cstr_le key).trans hk
  intro v t h hv
  by_contra hge
  have hneg : toInt v.length < 0 := by
    have := toInt_cases v.length
    have := Nat.mod_lt v.length (show 0 < 2 ^ 32 by decide)
    omega
  obtain ⟨r, out', hout, -⟩ := hb _ (Arr.zeros (storeBound pre key val)) (le_refl _)
  rw [extract_negative ((atValue_iff_follows hk').2 h) hv hneg] at hout
  cases hout

/-- **When the extraction keeps to the bound**; and in the domain of `FuzzJsonKeyValue` its
expectations hold. -/
theorem bounded_iff (hkey : 1 ≤ key.length) (hk : key.length ≤ MAX_KEY_SIZE) :
    (Bounded pre key val suf ↔ FoundFits pre key val suf) ∧
    (pre.length ≤ 50 → key.length ≤ 20 → val.length ≤ 50 → suf.length ≤ 50 → FuzzExpects pre key val suf) := by
  refine ⟨⟨foundFits_of_bounded hk, fun hf n out hn => ?_⟩, fun hp hk20 hv _ => ?_⟩
  · obtain ⟨r, out', hout, hdrop, hstr⟩ := extract_bounded out hkey hk hf hn
    exact ⟨r, out', hout, hdrop, fun hr => (hstr hr).1⟩
  · have hbound : storeBound pre key val ≤ 51 := by
      unfold storeBound
      omega
    obtain ⟨r, out, hout, -, hstr⟩ := extract_bounded (Arr.zeros MAX_VALUE_SIZE) hkey hk
      (foundFits_of_short hkey hk (by omega) (by omega)) (hbound.trans (by decide))
    refine ⟨r, out, hout, fun hr => ⟨?_, List.length_pos_iff.2 (hstr hr).1⟩⟩
    have := (hstr hr).2
    unfold MAX_VALUE_SIZE
    omega

/-- A prefix that ends in the key, and a value with a quote in it. -/
theorem bounded_iff_overlap : Bounded (bytes "\"id") (bytes "id") (bytes "on\"") (bytes "\x7d") ∧
    FuzzExpects (bytes "\"id") (bytes "id") (bytes "on\"") (bytes "\x7d") := by
  constructor
  · exact (bounded_iff (by decide) (by decide)).1.2 (foundFits_of_short (by decide) (by decide) (by decide) (by decide))
  · exact (bounded_iff (by decide) (by decide)).2 (by decide) (by decide) (by decide) (by decide)

/-- The value is found where no NUL cuts the text and nothing precedes it. -/
theorem follows_value (hk : 0 ∉ key) (hv : 0 ∉ val) :
    Follows (fuzzJson [] key val []) (cstr key) (chr '"' :: val ++ chr '"' :: []) := by
  rw [fuzzJson_eq List.not_mem_nil hk, cstr_eq_self hk, cstr_append_of_not_mem hv]
  exact ⟨[], _, rfl, fun _ _ _ => Nat.zero_le _, rfl⟩

/-- A value of 2^31 bytes: its length as an `int` is negative. -/
theorem value_wraps : ¬ Bounded [] (bytes "id") (List.replicate (2 ^ 31) (chr 'a')) [] := by
  intro h
  have hv : ∀ c, c ∈ List.replicate (2 ^ 31) (chr 'a') → c = chr 'a' := fun c => List.eq_of_mem_replicate
  have hfits := foundFits_of_bounded (by decide) h _ []
    (follows_value (by decide) fun h0 => absurd (hv _ h0) (by decide)) fun hq => absurd (hv _ hq) (by decide)
  rw [List.length_replicate] at hfits
  omega

end EspNetwork.Iot
