import EspNetwork.Proof.IotExtract

/-!
# JSON lookup on flat objects

`extract_json_value` searches raw text. On a compact flat object whose keys and
strings hold no quote, backslash or NUL, and for a query without `"`, `\`, `:` and
`,`, the search text can only match at the opening quote of a key:

* `strstr_member`: a member with another key holds no match, and none straddles
  into the next member.
* `strstr_members`: the search finds the first member with the key.
* `extractJsonValue_flat`: the value of that member is returned, or nothing is
  stored.
-/

namespace EspNetwork.Iot

open CLib

/-- The value of a member. -/
inductive Val
  | str (s : Bytes)
  | int (n : Int)

/-- The text of the value. -/
def Val.text : Val → Bytes
  | str s => s
  | int n => printLd n

/-- The value as it stands in the object. -/
def Val.json : Val → Bytes
  | str s => [chr '"'] ++ s ++ [chr '"']
  | int n => printLd n

/-- `"k":v` -/
def memberText (m : Bytes × Val) : Bytes := keyText m.1 ++ m.2.json

/-- The compact text `{"k1":v1,"k2":v2,...}`. -/
def objText (ms : List (Bytes × Val)) : Bytes :=
  [chr '{'] ++ [chr ','].intercalate (ms.map memberText) ++ [chr '}']

/-- No quote, backslash or NUL. -/
def Plain (s : Bytes) : Prop := chr '"' ∉ s ∧ chr '\\' ∉ s ∧ 0 ∉ s

/-- A member with a plain key, and a plain string of 1 to 63 bytes or a `long`. -/
def FlatMember : Bytes × Val → Prop
  | (k, .str s) => Plain k ∧ Plain s ∧ 1 ≤ s.length ∧ s.length ≤ 63
  | (k, .int n) => Plain k ∧ LONG_MIN ≤ n ∧ n ≤ LONG_MAX

/-- A query of at most 32 bytes without `"`, `\`, `:`, `,` and NUL. -/
def QueryKey (k : Bytes) : Prop :=
  k.length ≤ 32 ∧ Plain k ∧ chr ':' ∉ k ∧ chr ',' ∉ k

theorem FlatMember.key {m : Bytes × Val} (h : FlatMember m) : Plain m.1 := by
  obtain ⟨k, v⟩ := m
  cases v <;> exact h.1

/-! ## Where the search text can start -/

/-- The search text behind its first quote. -/
def keyTail (k : Bytes) : Bytes := k ++ [chr '"', chr ':']

theorem keyText_eq (k : Bytes) : keyText k = chr '"' :: keyTail k := rfl

/-- Behind a quote, the search text matches up to the next quote and the byte after it. -/
theorem keyTail_match {k u w : Bytes} (hk : chr '"' ∉ k) (hu : chr '"' ∉ u)
    (h : keyTail k <+: u ++ chr '"' :: w) : k = u ∧ [chr ':'] <+: w := by
  obtain ⟨r, hr⟩ := h
  have hs : k ++ chr '"' :: (chr ':' :: r) = u ++ chr '"' :: w := by rw [← hr]; simp [keyTail]
  obtain ⟨h1, h2⟩ := split_unique hk hu hs
  exact ⟨h1, ⟨r, h2⟩⟩

/-- The search text does not match behind a quote that closes a key or a string. -/
theorem keyTail_no_match {k t : Bytes} {c : Byte} (hq : QueryKey k)
    (hc : c = chr ':' ∨ c = chr ',' ∨ (c = chr '}' ∧ t = [])) : ¬ keyTail k <+: c :: t := by
  rintro ⟨r, hr⟩
  cases k with
  | nil =>
    have h1 := (List.cons.inj hr).1
    rcases hc with rfl | rfl | ⟨rfl, -⟩ <;> revert h1 <;> decide
  | cons x k =>
    obtain ⟨rfl, h2⟩ := List.cons.inj hr
    rcases hc with rfl | rfl | ⟨rfl, rfl⟩
    · exact hq.2.2.1 List.mem_cons_self
    · exact hq.2.2.2 List.mem_cons_self
    · simp at h2

theorem quote_not_mem_printLd (n : Int) : chr '"' ∉ printLd n := not_mem_printLd (by decide) (by decide) n

/-- No match starts inside a value, or at the separator behind it. -/
theorem strstr_value {k t : Bytes} {c : Byte} {v : Val} (hq : QueryKey k)
    (hv : ∀ s, v = .str s → chr '"' ∉ s) (hc : c = chr ',' ∨ (c = chr '}' ∧ t = [])) :
    strstr (v.json ++ c :: t) (keyText k) = (strstr t (keyText k)).map (· + (v.json.length + 1)) := by
  have hcq : chr '"' ≠ c := by rcases hc with rfl | ⟨rfl, -⟩ <;> decide
  rw [keyText_eq]
  cases v with
  | int n =>
    have hskip : chr '"' ∉ printLd n ++ [c] := by
      simp only [List.mem_append, List.mem_singleton, not_or]
      exact ⟨quote_not_mem_printLd n, hcq⟩
    have := strstr_skip (n := keyTail k) (t := t) hskip
    simpa [Val.json] using this
  | str s =>
    have hs := hv s rfl
    -- at the opening quote the string would have to be the key, followed by a colon
    have h1 : ¬ keyTail k <+: s ++ chr '"' :: (c :: t) := fun h => by
      obtain ⟨-, r, hr⟩ := keyTail_match hq.2.1.1 hs h
      have := (List.cons.inj hr).1
      rcases hc with rfl | ⟨rfl, -⟩ <;> revert this <;> decide
    have h2 : ¬ keyTail k <+: c :: t := keyTail_no_match hq (.inr hc)
    have h3 : chr '"' ∉ [c] := by simpa using hcq
    calc strstr ((Val.str s).json ++ c :: t) (chr '"' :: keyTail k)
        = strstr (chr '"' :: (s ++ chr '"' :: (c :: t))) (chr '"' :: keyTail k) := by simp [Val.json]
      _ = ((((strstr t (chr '"' :: keyTail k)).map (· + [c].length)).map (· + 1)).map
            (· + s.length)).map (· + 1) := by
          rw [strstr_cons h1, strstr_skip hs, strstr_cons h2, ← List.singleton_append, strstr_skip h3]
      _ = _ := by
          simp only [Option.map_map]
          congr 1; funext i
          simp [Val.json]; omega

/-- **A member with another key is skipped as a whole.** -/
theorem strstr_member {k t : Bytes} {c : Byte} {m : Bytes × Val} (hq : QueryKey k) (hm : FlatMember m)
    (hne : m.1 ≠ k) (hc : c = chr ',' ∨ (c = chr '}' ∧ t = [])) :
    strstr (memberText m ++ c :: t) (keyText k) =
      (strstr t (keyText k)).map (· + ((memberText m).length + 1)) := by
  obtain ⟨x, v⟩ := m
  have hx : chr '"' ∉ x := hm.key.1
  have hv : ∀ s, v = .str s → chr '"' ∉ s := by rintro s rfl; exact hm.2.1.1
  have h1 : ¬ keyTail k <+: x ++ chr '"' :: (chr ':' :: (v.json ++ c :: t)) := fun h =>
    hne (keyTail_match hq.2.1.1 hx h).1.symm
  have h2 : ¬ keyTail k <+: chr ':' :: (v.json ++ c :: t) := keyTail_no_match hq (.inl rfl)
  have h3 : chr '"' ∉ [chr ':'] := by decide
  calc strstr (memberText (x, v) ++ c :: t) (keyText k)
      = strstr (chr '"' :: (x ++ chr '"' :: (chr ':' :: (v.json ++ c :: t)))) (keyText k) := by
        simp [memberText, keyText]
    _ = ((((strstr (v.json ++ c :: t) (keyText k)).map (· + [chr ':'].length)).map (· + 1)).map
          (· + x.length)).map (· + 1) := by
        rw [keyText_eq, strstr_cons h1, strstr_skip hx, strstr_cons h2,
          ← List.singleton_append (l := v.json ++ c :: t), strstr_skip h3]
    _ = _ := by
        rw [strstr_value hq hv hc]
        simp only [Option.map_map]
        congr 1; funext i
        simp [memberText, keyText]; omega

/-! ## The members of an object -/

/-- The object behind its opening brace. -/
def membersText (ms : List (Bytes × Val)) : Bytes :=
  [chr ','].intercalate (ms.map memberText) ++ [chr '}']

theorem membersText_cons (m : Bytes × Val) (ms : List (Bytes × Val)) :
    ∃ c t, membersText (m :: ms) = memberText m ++ c :: t ∧
      (c = chr '}' ∧ t = [] ∧ ms = [] ∨ c = chr ',' ∧ t = membersText ms) := by
  cases ms with
  | nil => exact ⟨chr '}', [], by simp [membersText], .inl ⟨rfl, rfl, rfl⟩⟩
  | cons m' ms =>
    exact ⟨chr ',', membersText (m' :: ms), by simp [membersText, List.intercalate], .inr ⟨rfl, rfl⟩⟩

/-- **The search finds the first member with the key**, and stops at its value. -/
theorem strstr_members {k : Bytes} (hq : QueryKey k) {m : Bytes × Val} :
    ∀ {ms : List (Bytes × Val)}, (∀ x ∈ ms, FlatMember x) → ms.find? (·.1 = k) = some m →
      ∃ pos c r, strstr (membersText ms) (keyText k) = some pos ∧
        (membersText ms).drop (pos + (keyText k).length) = m.2.json ++ c :: r ∧
        (c = chr ',' ∨ c = chr '}') := by
  intro ms
  induction ms with
  | nil => intro _ h; simp at h
  | cons x ms ih =>
    intro hms hf
    obtain ⟨c, t, ht, hc⟩ := membersText_cons x ms
    rw [ht]
    by_cases hx : x.1 = k
    · have hxm : x = m := by simpa [hx] using hf
      subst hxm
      refine ⟨0, c, t, ?_, ?_, by rcases hc with ⟨rfl, -⟩ | ⟨rfl, -⟩ <;> simp⟩
      · exact strstr_eq_zero ⟨x.2.json ++ c :: t, by simp [memberText, hx]⟩
      · rw [Nat.zero_add, memberText, hx, List.append_assoc, List.drop_left' rfl]
    · rw [List.find?_cons_of_neg (by simpa using hx)] at hf
      rcases hc with ⟨-, -, rfl⟩ | ⟨rfl, rfl⟩
      · simp at hf
      · obtain ⟨pos, c', r, h1, h2, h3⟩ := ih (fun y hy => hms y (List.mem_cons_of_mem _ hy)) hf
        rw [strstr_member hq (hms x List.mem_cons_self) hx (.inl rfl), h1]
        refine ⟨_, c', r, rfl, ?_, h3⟩
        rw [← h2, show pos + ((memberText x).length + 1) + (keyText k).length =
          (memberText x).length + (pos + (keyText k).length + 1) by omega, ← List.drop_drop,
          List.drop_left' rfl, List.drop_succ_cons]

/-- Without the key there is no match. -/
theorem strstr_members_none {k : Bytes} (hq : QueryKey k) : ∀ {ms : List (Bytes × Val)},
    (∀ x ∈ ms, FlatMember x) → (∀ x ∈ ms, x.1 ≠ k) → strstr (membersText ms) (keyText k) = none := by
  intro ms
  induction ms with
  | nil =>
    intro _ _
    have := strstr_skip (n := keyTail k) (t := []) (show chr '"' ∉ [chr '}'] by decide)
    rw [strstr_nil_cons, ← keyText_eq] at this
    simpa [membersText] using this
  | cons x ms ih =>
    intro hms hne
    obtain ⟨c, t, ht, hc⟩ := membersText_cons x ms
    rw [ht, strstr_member hq (hms x List.mem_cons_self) (hne x List.mem_cons_self)
      (by rcases hc with ⟨rfl, rfl, -⟩ | ⟨rfl, -⟩ <;> simp)]
    rcases hc with ⟨-, rfl, -⟩ | ⟨-, rfl⟩
    · rw [keyText_eq, strstr_nil_cons]; rfl
    · rw [ih (fun y hy => hms y (List.mem_cons_of_mem _ hy)) fun y hy => hne y (List.mem_cons_of_mem _ hy)]
      rfl

theorem strstr_objText (ms : List (Bytes × Val)) (k : Bytes) :
    strstr (objText ms) (keyText k) = (strstr (membersText ms) (keyText k)).map (· + 1) := by
  have := strstr_skip (n := keyTail k) (t := membersText ms) (show chr '"' ∉ [chr '{'] by decide)
  rw [← keyText_eq] at this
  simpa [objText, membersText] using this

/-! ## The value behind the key -/

/-- The value of a member starts neither with white space nor, for a number, with a quote. -/
theorem printLd_head (n : Int) (r : Bytes) : ∀ b ∈ (printLd n ++ r).head?, isspace b = false ∧ b ≠ chr '"' := by
  intro b hb
  obtain ⟨x, l, hl⟩ := List.exists_cons_of_ne_nil (printLd_ne_nil n)
  have hx : x = b := by simpa [hl] using hb
  subst hx
  have hm : x ∈ printLd n := by rw [hl]; exact List.mem_cons_self
  refine ⟨?_, fun e => quote_not_mem_printLd n (e ▸ hm)⟩
  rcases mem_printLd hm with hsign | hdigit
  · rw [hsign]; decide
  · exact not_isspace_of_isdigit hdigit

/-- The extraction at the value of a flat member. -/
theorem extract_member {json k r : Bytes} {c : Byte} {m : Bytes × Val} (value : Arr MAX_VALUE_SIZE)
    (hm : FlatMember m) (hpos : ∃ pos, strstr json (searchKey k) = some pos ∧
      json.drop (pos + (searchKey k).length) = m.2.json ++ c :: r) (hc : c = chr ',' ∨ c = chr '}') :
    ∃ value', extractJsonValue json k value = some ((m.2.text.length : Int), value') ∧
      cstr value'.data = m.2.text ∧ m.2.text.length ≠ 0 := by
  obtain ⟨x, v⟩ := m
  obtain ⟨pos, hp, hd⟩ := hpos
  cases v with
  | str s =>
    obtain ⟨-, hs, h1, h63⟩ := hm
    have hat : AtValue json k (chr '"' :: s ++ chr '"' :: (c :: r)) := by
      refine ⟨pos, hp, ?_⟩
      rw [hd]
      have : isspace (chr '"') = false := by decide
      simp [Val.json, this]
    obtain ⟨value', hv⟩ := exists_strcpy value ⟨0, MAX_VALUE_SIZE⟩ s (by simp)
      (Nat.lt_succ_of_le h63)
    refine ⟨value', ?_, ?_, ?_⟩
    · rw [extract_quoted hat hs.1 (by omega), hv]; rfl
    · have := fieldStr_strcpyField hv hs.2.2
      simpa [fieldStr, Val.text] using this
    · simp only [Val.text]; omega
  | int n =>
    obtain ⟨-, h0, h1⟩ := hm
    have hhead := printLd_head n (c :: r)
    have hcd : ∀ b ∈ (c :: r).head?, isdigit b = false := by
      intro b hb
      simp only [List.head?_cons, Option.mem_some_iff] at hb
      subst hb
      rcases hc with rfl | rfl <;> decide
    have hat : AtValue json k (printLd n ++ c :: r) := by
      refine ⟨pos, hp, ?_⟩
      rw [hd]
      exact dropWhile_isspace [] _ (by simp) fun b hb => (hhead b hb).1
    have hq : (printLd n ++ c :: r).head? ≠ some (chr '"') := fun h => (hhead _ h).2 rfl
    have hl := length_printLd_le h0 h1
    have h0n : (0 : Byte) ∉ printLd n := not_mem_printLd (by decide) (by decide) n
    obtain ⟨value', hv⟩ := Arr.exists_store value 0 (printLd n ++ [0])
      (by simp [MAX_VALUE_SIZE]; omega)
    refine ⟨value', ?_, ?_, ?_⟩
    · rw [extract_number hat hq, strtol_printLd h0 h1 hcd, hv, toInt_of_lt (by omega)]; rfl
    · have := Arr.cstr_store hv h0n
      simpa [Val.text] using this
    · simp only [Val.text, ne_eq, List.length_eq_zero_iff]; exact printLd_ne_nil n

/-- **JSON lookup on flat objects.** A query returns the value of the first member
with its key, and its length; without such a member it returns 0 and stores
nothing. -/
theorem extractJsonValue_flat (ms : List (Bytes × Val)) (hms : ∀ m ∈ ms, FlatMember m) (k : Bytes)
    (hk : QueryKey k) (value : Arr MAX_VALUE_SIZE) :
    ∃ ret value', extractJsonValue (objText ms) k value = some (ret, value') ∧
      (ret ≠ 0 ↔ ∃ m ∈ ms, m.1 = k) ∧
      (∀ m, ms.find? (·.1 = k) = some m →
        cstr value'.data = m.2.text ∧ ret = (m.2.text.length : Int)) ∧
      ((∀ m ∈ ms, m.1 ≠ k) → ret = 0 ∧ value' = value) := by
  have hkey : searchKey k = keyText k := searchKey_eq hk.1
  by_cases h : ∃ m ∈ ms, m.1 = k
  · obtain ⟨m, hf⟩ : ∃ m, ms.find? (·.1 = k) = some m := by
      rw [← Option.isSome_iff_exists, List.find?_isSome]
      simpa using h
    obtain ⟨pos, c, r, h1, h2, h3⟩ := strstr_members hk hms hf
    have hat : ∃ pos, strstr (objText ms) (searchKey k) = some pos ∧
        (objText ms).drop (pos + (searchKey k).length) = m.2.json ++ c :: r := by
      refine ⟨pos + 1, by rw [hkey, strstr_objText, h1]; rfl, ?_⟩
      rw [hkey, ← h2, show pos + 1 + (keyText k).length = pos + (keyText k).length + 1 by omega]
      rfl
    obtain ⟨value', hv, hcs, hne⟩ := extract_member value (hms m (List.mem_of_find?_eq_some hf)) hat h3
    refine ⟨_, value', hv, iff_of_true (by simpa using hne) h, ?_, ?_⟩
    · intro m' hm'
      rw [hf] at hm'; cases hm'
      exact ⟨hcs, rfl⟩
    · intro hno
      obtain ⟨m', hm', hk'⟩ := h
      exact absurd hk' (hno m' hm')
  · have hno : ∀ m ∈ ms, m.1 ≠ k := fun m hm e => h ⟨m, hm, e⟩
    have habs : strstr (objText ms) (searchKey k) = none := by
      rw [hkey, strstr_objText, strstr_members_none hk hms hno]; rfl
    refine ⟨0, value, extract_absent habs, iff_of_false (by simp) h, ?_, fun _ => ⟨rfl, rfl⟩⟩
    intro m hm
    have := List.find?_some hm
    exact absurd (by simpa using this) (hno m (List.mem_of_find?_eq_some hm))

/-- `extractJsonValue_flat` at `{"device_id":"sensor1","temp":23}` and `temp`. -/
theorem extractJsonValue_flat_temp :
    ∃ ret value', extractJsonValue (objText [(bytes "device_id", .str (bytes "sensor1")),
        (bytes "temp", .int 23)]) (bytes "temp") (Arr.zeros MAX_VALUE_SIZE) = some (ret, value') ∧ ret ≠ 0 := by
  have hp : ∀ s : Bytes, (s.contains (chr '"') || s.contains (chr '\\') || s.contains 0) = false → Plain s := by
    intro s h
    simpa [Plain, and_assoc] using h
  obtain ⟨ret, value', h, h1, -⟩ := extractJsonValue_flat
    [(bytes "device_id", .str (bytes "sensor1")), (bytes "temp", .int 23)]
    (by
      intro m hm
      simp only [List.mem_cons, List.not_mem_nil, or_false] at hm
      rcases hm with rfl | rfl
      · exact ⟨hp _ (by decide), hp _ (by decide), by decide, by decide⟩
      · exact ⟨hp _ (by decide), by decide, by decide⟩)
    (bytes "temp") ⟨by decide, hp _ (by decide), by decide, by decide⟩ (Arr.zeros _)
  exact ⟨ret, value', h, h1.2 ⟨_, List.mem_cons_of_mem _ List.mem_cons_self, rfl⟩⟩

end EspNetwork.Iot
