import EspNetwork.Spec.IotParser

/-!
# `extract_json_value`, case by case

* `strncpyField_toInt`: `strncpy` and the NUL after it are one `strcpy` of the prefix.
* `extract_absent`, `extract_quoted`, `extract_open`, `extract_number`: the four ways
  through `extract_json_value`.
* `extract_isSome_iff`: the extraction stays inside `value` iff the quoted text it
  copies, if any, fits (`ValueFits`).
-/

namespace EspNetwork.Iot

open CLib

variable {n : Nat} {json key : Bytes} {value : Arr n} {lim : Limit} {msg : Arr n} {f : Field}

theorem storeField_append (lim : Limit) (msg : Arr n) (f : Field) (u v : Bytes) :
    ((storeField lim msg f 0 u).bind fun m => storeField lim m f u.length v) =
      storeField lim msg f 0 (u ++ v) := by
  unfold storeField
  by_cases h : u.length + v.length ≤ lim f
  · rw [if_pos (by omega), if_pos (by simpa using h)]
    simp only [if_pos h]
    rw [Nat.add_zero, Arr.store_append]
  · by_cases hu : 0 + u.length ≤ lim f
    · rw [if_pos hu, if_neg (by simpa using h)]
      simp only [if_neg h]
      cases msg.store (f.off + 0) u <;> rfl
    · rw [if_neg hu, Option.bind_none, if_neg (by simpa using h)]

/-- `strncpy(dst, src, k); dst[k] = '\0'` is `strcpy` of the first `k` bytes. -/
theorem strncpyField_ofNat {src : Bytes} {k : Nat} (hk : k ≤ src.length) :
    strncpyField lim msg f src k = strcpyField lim msg f (src.take k) := by
  have h := storeField_append lim msg f (src.take k) [0]
  rw [List.length_take, min_eq_left hk] at h
  simp only [strncpyField, strncpyBytes_of_le hk, strcpyField]
  exact h

theorem strncpyField_negative {src : Bytes} {len : Int} (h : len < 0) : strncpyField lim msg f src len = none := by
  obtain ⟨k, rfl⟩ := Int.eq_negSucc_of_lt_zero h
  rfl

theorem strncpyField_toInt {src : Bytes} {k : Nat} (hk : k ≤ src.length) (hi : k < 2 ^ 31) :
    strncpyField lim msg f src (toInt k) = strcpyField lim msg f (src.take k) := by
  rw [toInt_of_lt hi, strncpyField_ofNat hk]

/-- A `strcpy` succeeds iff the text and its NUL fit. -/
theorem strcpyField_isSome_iff {s : Bytes} (hf : f.off + lim f ≤ n) :
    (strcpyField lim msg f s).isSome ↔ s.length + 1 ≤ lim f := by
  unfold strcpyField storeField
  split
  · rename_i h
    rw [Arr.store_isSome_iff]
    simp only [List.length_append, List.length_singleton] at h ⊢
    omega
  · rename_i h
    simp only [List.length_append, List.length_singleton] at h
    simp; omega

/-- With bounds at the ends of the fields. -/
theorem strcpyField_strict {s : Bytes} (hf : f.off + f.size ≤ n) :
    (∃ msg', strcpyField strict msg f s = some msg') ↔ s.length < f.size := by
  have h : (strcpyField strict msg f s).isSome ↔ s.length + 1 ≤ strict f := strcpyField_isSome_iff hf
  rw [← Option.isSome_iff_exists, h]; rfl

theorem exists_strcpy (msg : Arr n) (f : Field) (s : Bytes) (hf : f.off + f.size ≤ n)
    (h : s.length < f.size) : ∃ msg', strcpyField strict msg f s = some msg' :=
  (strcpyField_strict hf).2 h

/-- What a successful `strcpy` did: one store of the text and its NUL. -/
theorem strcpyField_store {s : Bytes} {msg' : Arr n} (h : strcpyField lim msg f s = some msg') :
    msg.store f.off (s ++ [0]) = some msg' := by
  unfold strcpyField storeField at h
  split at h
  · simpa using h
  · cases h

theorem fieldStr_strcpyField {s : Bytes} {msg' : Arr n} (h : strcpyField lim msg f s = some msg')
    (hs : 0 ∉ s) : fieldStr msg' f = s :=
  Arr.cstr_store (strcpyField_store h) hs

/-- A field that ends before another one is not changed by a store to that one. -/
theorem fieldStr_strcpyField_of_lt {s : Bytes} {msg' : Arr n} {g : Field}
    (h : strcpyField lim msg f s = some msg') (hg : g.off + (fieldStr msg g).length < f.off) :
    fieldStr msg' g = fieldStr msg g :=
  Arr.cstr_store_of_lt (strcpyField_store h) hg

theorem fieldStr_zeros : fieldStr (Arr.zeros n) f = [] := by
  simp [fieldStr, Arr.zeros, List.drop_replicate, cstr_replicate]

/-! ## The search text -/

/-- The text `extract_json_value` looks for. -/
def keyText (key : Bytes) : Bytes := [chr '"'] ++ key ++ [chr '"', chr ':']

theorem searchKey_eq (h : key.length ≤ MAX_KEY_SIZE) : searchKey key = keyText key := by
  unfold searchKey keyText
  rw [List.take_of_length_le]
  simp [MAX_KEY_SIZE] at h ⊢; omega

/-- `key_pos`, and the text that follows the search text and white space. -/
def AtValue (json key rest : Bytes) : Prop :=
  ∃ pos, strstr json (searchKey key) = some pos ∧
    (json.drop (pos + (searchKey key).length)).dropWhile isspace = rest

theorem atValue_length {r : Bytes} (h : AtValue json key r) : r.length ≤ json.length := by
  obtain ⟨p, -, rfl⟩ := h
  refine le_trans (List.length_dropWhile_le _ _) ?_
  simp

/-- `rest` follows the first occurrence of the search text, and white space after it. -/
def Follows (json key rest : Bytes) : Prop :=
  ∃ a b, json = a ++ keyText key ++ b ∧ (∀ a' b', json = a' ++ keyText key ++ b' → a.length ≤ a'.length) ∧
    b.dropWhile isspace = rest

theorem atValue_iff_follows {rest : Bytes} (hk : key.length ≤ MAX_KEY_SIZE) :
    AtValue json key rest ↔ Follows json key rest := by
  unfold AtValue Follows
  rw [searchKey_eq hk]
  constructor
  · rintro ⟨p, hp, hr⟩
    obtain ⟨⟨a, b, hj, rfl⟩, hmin⟩ := strstr_eq_some_iff.1 hp
    rw [hj, List.drop_left' (by simp)] at hr
    exact ⟨a, b, hj, hmin, hr⟩
  · rintro ⟨a, b, hj, hmin, hr⟩
    refine ⟨a.length, strstr_eq_some_iff.2 ⟨⟨a, b, hj, rfl⟩, hmin⟩, ?_⟩
    rw [hj, List.drop_left' (by simp), hr]

/-! ## The four branches -/

theorem extract_absent (h : strstr json (searchKey key) = none) :
    extractJsonValue json key value = some (0, value) := by
  simp [extractJsonValue, h]

/-- Of a terminated quoted text, as many bytes are copied as its length says as an `int`. -/
theorem extract_wrapped {v t : Bytes} {k : Nat} (h : AtValue json key (chr '"' :: v ++ chr '"' :: t))
    (hv : chr '"' ∉ v) (hk : toInt v.length = k) : extractJsonValue json key value =
      (strcpyField strict value ⟨0, n⟩ (v.take k)).map fun a => ((k : Int), a) := by
  obtain ⟨p, hp, hr⟩ := h
  have hkv : k ≤ v.length := by
    have := toInt_le v.length
    omega
  have htl : (v ++ chr '"' :: t).take k = v.take k := List.take_append_of_le_length hkv
  have hle : k ≤ (v ++ chr '"' :: t).length := by
    rw [List.length_append]
    omega
  simp only [extractJsonValue, hp, hr, List.cons_append, List.head?_cons, if_true, List.tail_cons,
    strchr_append hv, hk]
  rw [strncpyField_ofNat hle, htl]
  cases strcpyField strict value ⟨0, n⟩ (v.take k) <;> rfl

/-- A negative length is more than any array holds. -/
theorem extract_negative {v t : Bytes} (h : AtValue json key (chr '"' :: v ++ chr '"' :: t))
    (hv : chr '"' ∉ v) (hneg : toInt v.length < 0) : extractJsonValue json key value = none := by
  obtain ⟨p, hp, hr⟩ := h
  simp only [extractJsonValue, hp, hr, List.cons_append, List.head?_cons, if_true, List.tail_cons,
    strchr_append hv, strncpyField_negative hneg]
  rfl

/-- A terminated quoted text is copied. -/
theorem extract_quoted {v t : Bytes} (h : AtValue json key (chr '"' :: v ++ chr '"' :: t))
    (hv : chr '"' ∉ v) (hi : v.length < 2 ^ 31) : extractJsonValue json key value =
      (strcpyField strict value ⟨0, n⟩ v).map fun a => ((v.length : Int), a) := by
  rw [extract_wrapped h hv (toInt_of_lt hi), List.take_length]

/-- A quoted text without its closing quote is skipped. -/
theorem extract_open {v : Bytes} (h : AtValue json key (chr '"' :: v)) (hv : chr '"' ∉ v) :
    extractJsonValue json key value = some (0, value) := by
  obtain ⟨p, hp, hr⟩ := h
  simp [extractJsonValue, hp, hr, strchr_eq_none_iff.2 hv]

/-- Everything else is read as a number. -/
theorem extract_number {r : Bytes} (h : AtValue json key r) (hr : r.head? ≠ some (chr '"')) :
    extractJsonValue json key value =
      (value.store 0 (printLd (strtol r).1 ++ [0])).map fun a => (toInt (strtol r).2, a) := by
  obtain ⟨p, hp, hr'⟩ := h
  simp only [extractJsonValue, hp, hr', if_neg hr]
  cases value.store 0 (printLd (strtol r).1 ++ [0]) <;> rfl

/-- One of the four branches applies. -/
theorem extract_cases (json key : Bytes) : strstr json (searchKey key) = none ∨
    (∃ v t, AtValue json key (chr '"' :: v ++ chr '"' :: t) ∧ chr '"' ∉ v) ∨
    (∃ v, AtValue json key (chr '"' :: v) ∧ chr '"' ∉ v) ∨
    ∃ r, AtValue json key r ∧ r.head? ≠ some (chr '"') := by
  cases hs : strstr json (searchKey key) with
  | none => exact .inl rfl
  | some p =>
    have hat : AtValue json key _ := ⟨p, hs, rfl⟩
    set r := (json.drop (p + (searchKey key).length)).dropWhile isspace
    by_cases hq : r.head? = some (chr '"')
    · obtain ⟨v, hv⟩ := List.head?_eq_some_iff.1 hq
      rw [hv] at hat
      by_cases hc : chr '"' ∈ v
      · obtain ⟨u, t, rfl, hu⟩ := List.eq_append_cons_of_mem hc
        exact .inr (.inl ⟨u, t, hat, hu⟩)
      · exact .inr (.inr (.inl ⟨v, hat, hc⟩))
    · exact .inr (.inr (.inr ⟨r, hat, hq⟩))

/-! ## When the extraction stays inside `value` -/

/-- **The quoted text after the first occurrence of the key fits `k` bytes.** A value
that is not a terminated quoted text is printed as a number and always fits. -/
def ValueFits (k : Nat) (json key : Bytes) : Prop :=
  ∀ a ws v b, json = a ++ keyText key ++ ws ++ chr '"' :: v ++ chr '"' :: b →
    (∀ a' b', json = a' ++ keyText key ++ b' → a.length ≤ a'.length) →
    (∀ c ∈ ws, isspace c = true) → chr '"' ∉ v → v.length ≤ k

theorem dropWhile_isspace (ws r : Bytes) (hw : ∀ c ∈ ws, isspace c = true)
    (hr : ∀ c ∈ r.head?, isspace c = false) : (ws ++ r).dropWhile isspace = r := by
  rw [List.dropWhile_append_of_pos hw]
  cases r with
  | nil => rfl
  | cons c r => simp [hr c (by simp)]

theorem atValue_iff {v t : Bytes} (hk : key.length ≤ MAX_KEY_SIZE) :
    AtValue json key (chr '"' :: v ++ chr '"' :: t) ↔ ∃ a ws,
      json = a ++ keyText key ++ ws ++ chr '"' :: v ++ chr '"' :: t ∧
      (∀ a' b', json = a' ++ keyText key ++ b' → a.length ≤ a'.length) ∧
      ∀ c ∈ ws, isspace c = true := by
  rw [atValue_iff_follows hk]
  constructor
  · rintro ⟨a, b, hj, hmin, hr⟩
    refine ⟨a, b.takeWhile isspace, ?_, hmin, fun c hc => List.mem_takeWhile_imp hc⟩
    rw [hj]
    conv_lhs => rw [← List.takeWhile_append_dropWhile (p := isspace) (l := b), hr]
    simp
  · rintro ⟨a, ws, hj, hmin, hw⟩
    have hj' : json = a ++ keyText key ++ (ws ++ (chr '"' :: v ++ chr '"' :: t)) := by
      rw [hj]; simp only [List.append_assoc]
    refine ⟨a, _, hj', hmin, dropWhile_isspace _ _ hw ?_⟩
    intro c hc
    simp only [List.cons_append, List.head?_cons, Option.mem_some_iff] at hc
    subst hc; decide

/-- **The extraction stays inside its destination iff the quoted text fits.** -/
theorem extract_isSome_iff (value : Arr n) (hk : key.length ≤ MAX_KEY_SIZE) (hj : json.length < 2 ^ 31) (hn : 21 ≤ n) :
    (extractJsonValue json key value).isSome ↔ ValueFits (n - 1) json key := by
  have hnum : ∀ r, AtValue json key r → r.head? ≠ some (chr '"') →
      (extractJsonValue json key value).isSome := by
    intro r hr hq
    rw [extract_number hr hq, Option.isSome_map, Arr.store_isSome_iff]
    have := length_printLd_le (strtol_range r).1 (strtol_range r).2
    simp; omega
  constructor
  · intro h a ws v b hab hmin hw hv
    have hat := (atValue_iff hk).2 ⟨a, ws, hab, hmin, hw⟩
    have hl := atValue_length hat
    rw [extract_quoted hat hv (by simp at hl; omega), Option.isSome_map,
      strcpyField_isSome_iff (by simp [strict])] at h
    simp [strict] at h; omega
  · intro h
    rcases extract_cases json key with h0 | ⟨v, t, hat, hv⟩ | ⟨v, hat, hv⟩ | ⟨r, hat, hq⟩
    · rw [extract_absent h0]; rfl
    · obtain ⟨a, ws, hab, hmin, hw⟩ := (atValue_iff hk).1 hat
      have hl := atValue_length hat
      have := h a ws v t hab hmin hw hv
      rw [extract_quoted hat hv (by simp at hl; omega), Option.isSome_map,
        strcpyField_isSome_iff (by simp [strict])]
      simp [strict]; omega
    · rw [extract_open hat hv]; rfl
    · exact hnum r hat hq

end EspNetwork.Iot
