import EspNetwork.Proof.IotExtract

/-!
# The lines the IoT parser survives

`main_isSome_iff`: the exact set of input lines on which the whole run stays inside
its arrays. The three branches of the dispatch are `mqtt_isSome_iff`,
`http_isSome_iff` and `unknown_isSome_iff`.
-/

namespace EspNetwork.Iot

open CLib

variable {L : Bytes}

/-! ## Printing -/

/-- A field read as a text is no longer than the field. -/
theorem length_fieldStr_le {n : Nat} (msg : Arr n) (f : Field) : (fieldStr msg f).length ≤ n := by
  have h1 : (fieldStr msg f).length ≤ (msg.data.drop f.off).length :=
    (List.takeWhile_sublist _).length_le
  have := msg.size_eq
  simp only [List.length_drop] at h1; omega

/-- **A line about a key is safe** iff the value found fits its buffer. -/
theorem printJsonValue_isSome_iff {json : Bytes} (key label : String)
    (hk : (bytes key).length ≤ MAX_KEY_SIZE) (hj : json.length < 2 ^ 31) :
    (printJsonValue json key label).isSome ↔ ValueFits 63 json (bytes key) := by
  have h := extract_isSome_iff (Arr.zeros MAX_VALUE_SIZE) hk hj (by decide)
  rw [show MAX_VALUE_SIZE - 1 = 63 from rfl] at h
  rw [← h]
  unfold printJsonValue
  cases extractJsonValue json (bytes key) (Arr.zeros MAX_VALUE_SIZE) <;> simp

/-- The three lookups of an MQTT message. -/
theorem printMqttAnalysis_isSome_iff (msg : MqttMessage) : (printMqttAnalysis msg).isSome ↔
    ∀ key ∈ ["device_id", "temperature", "status"], ValueFits 63 (fieldStr msg payload) (bytes key) := by
  have hl : (fieldStr msg payload).length < 2 ^ 31 :=
    lt_of_le_of_lt (length_fieldStr_le msg payload) (by decide)
  have h1 := printJsonValue_isSome_iff "device_id" "Device ID: " (by decide) hl
  have h2 := printJsonValue_isSome_iff "temperature" "Temperature: " (by decide) hl
  have h3 := printJsonValue_isSome_iff "status" "Status: " (by decide) hl
  simp only [List.forall_mem_cons, ← h1, ← h2, ← h3, List.not_mem_nil, false_imp_iff, implies_true,
    and_true]
  unfold printMqttAnalysis
  generalize printJsonValue (fieldStr msg payload) "device_id" "Device ID: " = x
  generalize printJsonValue (fieldStr msg payload) "temperature" "Temperature: " = y
  generalize printJsonValue (fieldStr msg payload) "status" "Status: " = z
  cases x <;> cases y <;> cases z <;> simp

/-- The error text and the two lookups of an HTTP request. -/
theorem printHttpAnalysis_isSome_iff (msg : HttpMessage) : (printHttpAnalysis msg).isSome ↔
    (errorMsg msg).isSome ∧
      ∀ key ∈ ["action", "value"], ValueFits 63 (fieldStr msg body) (bytes key) := by
  have hl : (fieldStr msg body).length < 2 ^ 31 :=
    lt_of_le_of_lt (length_fieldStr_le msg body) (by decide)
  have h1 := printJsonValue_isSome_iff "action" "Action: " (by decide) hl
  have h2 := printJsonValue_isSome_iff "value" "Value: " (by decide) hl
  simp only [List.forall_mem_cons, ← h1, ← h2, List.not_mem_nil, false_imp_iff, implies_true, and_true]
  unfold printHttpAnalysis
  generalize errorMsg msg = x
  generalize printJsonValue (fieldStr msg body) "action" "Action: " = y
  generalize printJsonValue (fieldStr msg body) "value" "Value: " = z
  cases x <;> cases y <;> cases z <;> simp

/-- With a method the warning is not formatted. -/
theorem errorMsg_of_method {msg : HttpMessage} (h : fieldStr msg method ≠ []) : errorMsg msg = some [] := by
  simp [errorMsg, h]

/-- With neither method nor path the warning is a constant that fits. -/
theorem errorMsg_of_empty {msg : HttpMessage} (h : fieldStr msg method = []) (hp : fieldStr msg path = []) :
    (errorMsg msg).isSome := by
  simp only [errorMsg, h, hp, if_true]
  decide

theorem valueFits_nil (k : Nat) (key : Bytes) : ValueFits k [] key := by
  intro a ws v b h; simp at h

/-! ## MQTT lines -/

/-- The line goes to the MQTT branch and stays inside its arrays. -/
def MqttSafe (L : Bytes) : Prop :=
  bytes "mqtt" <+: L ∧
    (chr ' ' ∉ L.drop 4 ∨ ∃ t p, L = bytes "mqtt" ++ t ++ chr ' ' :: p ∧ chr ' ' ∉ t ∧
      t.length ≤ 63 ∧ p.length ≤ 255 ∧
      ∀ key ∈ ["device_id", "temperature", "status"], ValueFits 63 p (bytes key))

/-- A line with a space is a topic and a payload. -/
theorem parseMqttTopic_split {lim : Limit} {msg : MqttMessage} {t p : Bytes} (ht : chr ' ' ∉ t)
    (hl : t.length < 2 ^ 31) : parseMqttTopic lim (bytes "mqtt" ++ t ++ chr ' ' :: p) msg =
      (strcpyField lim msg topic t).bind fun msg => strcpyField lim msg payload p := by
  have h4 : (bytes "mqtt" ++ t ++ chr ' ' :: p).drop 4 = t ++ chr ' ' :: p := by
    rw [List.append_assoc, List.drop_left' (by rfl)]
  have hp : (bytes "mqtt" ++ t ++ chr ' ' :: p).drop (4 + t.length + 1) = p := by
    rw [show 4 + t.length + 1 = 4 + (t.length + 1) from rfl, ← List.drop_drop, h4, List.append_cons,
      List.drop_left' (by simp)]
  have hle : t.length ≤ (t ++ chr ' ' :: p).length := by simp
  unfold parseMqttTopic
  rw [h4, strchr_append ht]
  simp only [Option.bind_eq_bind]
  rw [strncpyField_toInt hle hl, List.take_left' rfl, hp]

/-- **The MQTT branch is safe** exactly on the lines of `MqttSafe`. -/
theorem mqtt_isSome_iff (h0 : 0 ∉ L) (hl : L.length ≤ 511) (hm : bytes "mqtt" <+: L) :
    (dispatch strict L).isSome ↔ MqttSafe L := by
  have hd : dispatch strict L = (parseMqttTopic strict L (Arr.zeros _)).bind printMqttAnalysis := by
    simp only [dispatch, List.isPrefixOf_iff_prefix, hm, if_true, Option.bind_eq_bind]
  rw [hd]
  obtain ⟨r, rfl⟩ := hm
  have h4 : (bytes "mqtt" ++ r).drop 4 = r := List.drop_left' rfl
  by_cases hsp : chr ' ' ∈ r
  · obtain ⟨t, p, rfl, ht⟩ := List.eq_append_cons_of_mem hsp
    rw [← List.append_assoc] at h0 hl h4 ⊢
    have h0p : 0 ∉ p := fun h => h0 (by simp [h])
    have hlt : t.length < 2 ^ 31 := by simp at hl; omega
    rw [parseMqttTopic_split ht hlt, Option.bind_assoc]
    simp only [Option.isSome_bind, Option.any_eq_true]
    constructor
    · rintro ⟨msg, h1, msg', h2, h3⟩
      have hlt' : t.length < topic.size := (strcpyField_strict (by decide)).1 ⟨msg, h1⟩
      have hlp : p.length < payload.size := (strcpyField_strict (by decide)).1 ⟨msg', h2⟩
      rw [printMqttAnalysis_isSome_iff, fieldStr_strcpyField h2 h0p] at h3
      exact ⟨⟨t ++ chr ' ' :: p, by simp⟩,
        .inr ⟨t, p, rfl, ht, Nat.le_of_lt_succ hlt', Nat.le_of_lt_succ hlp, h3⟩⟩
    · rintro ⟨-, h | ⟨t', p', he, ht', hlt', hlp, hfit⟩⟩
      · exact absurd hsp (h4 ▸ h)
      · simp only [List.append_assoc, List.append_cancel_left_eq] at he
        obtain ⟨rfl, rfl⟩ := split_unique ht ht' he
        obtain ⟨msg, h1⟩ := exists_strcpy (Arr.zeros _ : MqttMessage) topic t (by decide)
          (Nat.lt_succ_of_le hlt')
        obtain ⟨msg', h2⟩ := exists_strcpy msg payload p (by decide) (Nat.lt_succ_of_le hlp)
        refine ⟨msg, h1, msg', h2, ?_⟩
        rw [printMqttAnalysis_isSome_iff, fieldStr_strcpyField h2 h0p]
        exact hfit
  · have hp : parseMqttTopic strict (bytes "mqtt" ++ r) (Arr.zeros _) = some (Arr.zeros _) := by
      unfold parseMqttTopic; rw [h4, strchr_eq_none_iff.2 hsp]
    rw [hp, Option.bind_some, printMqttAnalysis_isSome_iff, fieldStr_zeros]
    refine iff_of_true (fun key _ => valueFits_nil _ _) ⟨⟨r, rfl⟩, .inl ?_⟩
    rwa [h4]

/-! ## HTTP lines -/

/-- The line goes to the HTTP branch and stays inside its arrays. -/
def HttpSafe (L : Bytes) : Prop :=
  (bytes "GET" <+: L ∨ bytes "POST" <+: L) ∧
    (chr ' ' ∉ L ∨ ∃ m r, L = m ++ chr ' ' :: r ∧ chr ' ' ∉ m ∧ m.length ≤ 7 ∧
      (chr ' ' ∉ r ∨ ∃ u b, r = u ++ chr ' ' :: b ∧ chr ' ' ∉ u ∧ u.length ≤ 63 ∧ b.length ≤ 255 ∧
        ∀ key ∈ ["action", "value"], ValueFits 63 b (bytes key)))

/-- A line without a space leaves the message as it was. -/
theorem parseHttpRequest_no_space {lim : Limit} {msg : HttpMessage} (h : chr ' ' ∉ L) :
    parseHttpRequest lim L msg = some msg := by
  unfold parseHttpRequest; rw [strchr_eq_none_iff.2 h]

/-- One space ends the method; neither path nor body is stored. -/
theorem parseHttpRequest_one_space {lim : Limit} {msg : HttpMessage} {m r : Bytes} (hm : chr ' ' ∉ m)
    (hr : chr ' ' ∉ r) :
    parseHttpRequest lim (m ++ chr ' ' :: r) msg = strcpyField lim msg method m := by
  have hd : (m ++ chr ' ' :: r).drop (m.length + 1) = r := by
    rw [List.append_cons, List.drop_left' (by simp)]
  unfold parseHttpRequest
  rw [strchr_append hm]
  simp only [Option.bind_eq_bind, hd, strchr_eq_none_iff.2 hr, List.take_left' rfl]
  cases strcpyField lim msg method m <;> rfl

/-- Two spaces part the line into method, path and body. -/
theorem parseHttpRequest_split {lim : Limit} {msg : HttpMessage} {m u b : Bytes} (hm : chr ' ' ∉ m)
    (hu : chr ' ' ∉ u) : parseHttpRequest lim (m ++ chr ' ' :: (u ++ chr ' ' :: b)) msg =
      (strcpyField lim msg method m).bind fun msg => (strcpyField lim msg path u).bind fun msg =>
        strcpyField lim msg body b := by
  have hd : (m ++ chr ' ' :: (u ++ chr ' ' :: b)).drop (m.length + 1) = u ++ chr ' ' :: b := by
    rw [List.append_cons, List.drop_left' (by simp)]
  have hd' : (u ++ chr ' ' :: b).drop (u.length + 1) = b := by
    rw [List.append_cons, List.drop_left' (by simp)]
  unfold parseHttpRequest
  rw [strchr_append hm]
  simp only [Option.bind_eq_bind, hd, strchr_append hu, List.take_left' rfl, hd']

/-- A line of the HTTP branch starts with a method. -/
theorem method_ne_nil {m r : Bytes} (h : bytes "GET" <+: m ++ chr ' ' :: r ∨
    bytes "POST" <+: m ++ chr ' ' :: r) : m ≠ [] := by
  rintro rfl
  rcases h with ⟨t, h⟩ | ⟨t, h⟩
  · exact absurd (List.cons.inj h).1 (by decide)
  · exact absurd (List.cons.inj h).1 (by decide)

/-- The HTTP branch of `main`. -/
def httpRun (L : Bytes) : Option Bytes := (parseHttpRequest strict L (Arr.zeros _)).bind printHttpAnalysis

/-- Without a space the message stays zeroed, and the constant warning is printed. -/
theorem httpRun_no_space (h : chr ' ' ∉ L) : (httpRun L).isSome := by
  rw [httpRun, parseHttpRequest_no_space h, Option.bind_some, printHttpAnalysis_isSome_iff]
  refine ⟨errorMsg_of_empty fieldStr_zeros fieldStr_zeros, ?_⟩
  intro key _
  rw [fieldStr_zeros]
  exact valueFits_nil _ _

theorem httpRun_one_space {m r : Bytes} (h0 : 0 ∉ m) (hne : m ≠ []) (hm : chr ' ' ∉ m) (hr : chr ' ' ∉ r) :
    (httpRun (m ++ chr ' ' :: r)).isSome ↔ m.length ≤ 7 := by
  rw [httpRun, parseHttpRequest_one_space hm hr, Option.isSome_bind, Option.any_eq_true]
  constructor
  · rintro ⟨msg, h1, -⟩
    have hlm : m.length < method.size := (strcpyField_strict (by decide)).1 ⟨msg, h1⟩
    exact Nat.le_of_lt_succ hlm
  · intro hlm
    obtain ⟨msg, h1⟩ := exists_strcpy (Arr.zeros _ : HttpMessage) method m (by decide) (Nat.lt_succ_of_le hlm)
    -- nothing was stored behind the method
    have hdrop := Arr.drop_store (j := body.off) (strcpyField_store h1)
      (by simp [method, body, MAX_PATH_SIZE]; omega)
    have hbody : fieldStr msg body = [] := by
      rw [fieldStr, hdrop]
      exact fieldStr_zeros
    have hmethod : fieldStr msg method ≠ [] := by
      rw [fieldStr_strcpyField h1 h0]
      exact hne
    refine ⟨msg, h1, (printHttpAnalysis_isSome_iff msg).2 ⟨?_, ?_⟩⟩
    · rw [errorMsg_of_method hmethod]
      rfl
    · intro key _
      rw [hbody]
      exact valueFits_nil _ _

theorem httpRun_split {m u b : Bytes} (h0m : 0 ∉ m) (h0b : 0 ∉ b) (hne : m ≠ []) (hm : chr ' ' ∉ m)
    (hu : chr ' ' ∉ u) : (httpRun (m ++ chr ' ' :: (u ++ chr ' ' :: b))).isSome ↔
      m.length ≤ 7 ∧ u.length ≤ 63 ∧ b.length ≤ 255 ∧
        ∀ key ∈ ["action", "value"], ValueFits 63 b (bytes key) := by
  rw [httpRun, parseHttpRequest_split hm hu]
  simp only [Option.bind_assoc, Option.isSome_bind, Option.any_eq_true]
  constructor
  · rintro ⟨msg, h1, msg', h2, msg'', h3, h4⟩
    have hlm : m.length < method.size := (strcpyField_strict (by decide)).1 ⟨msg, h1⟩
    have hlu : u.length < path.size := (strcpyField_strict (by decide)).1 ⟨msg', h2⟩
    have hlb : b.length < body.size := (strcpyField_strict (by decide)).1 ⟨msg'', h3⟩
    have hfit := ((printHttpAnalysis_isSome_iff msg'').1 h4).2
    rw [fieldStr_strcpyField h3 h0b] at hfit
    exact ⟨Nat.le_of_lt_succ hlm, Nat.le_of_lt_succ hlu, Nat.le_of_lt_succ hlb, hfit⟩
  · rintro ⟨hlm, hlu, hlb, hfit⟩
    obtain ⟨msg, h1⟩ := exists_strcpy (Arr.zeros _ : HttpMessage) method m (by decide) (Nat.lt_succ_of_le hlm)
    obtain ⟨msg', h2⟩ := exists_strcpy msg path u (by decide) (Nat.lt_succ_of_le hlu)
    obtain ⟨msg'', h3⟩ := exists_strcpy msg' body b (by decide) (Nat.lt_succ_of_le hlb)
    -- the method is read back behind both later stores
    have hm1 := fieldStr_strcpyField h1 h0m
    have hm2 : fieldStr msg' method = m := by
      rw [fieldStr_strcpyField_of_lt h2, hm1]
      rw [hm1]; simp [method, path]; omega
    have hm3 : fieldStr msg'' method = m := by
      rw [fieldStr_strcpyField_of_lt h3, hm2]
      rw [hm2]; simp [method, body, MAX_PATH_SIZE]; omega
    have hmethod : fieldStr msg'' method ≠ [] := by rw [hm3]; exact hne
    refine ⟨msg, h1, msg', h2, msg'', h3, (printHttpAnalysis_isSome_iff msg'').2 ⟨?_, ?_⟩⟩
    · rw [errorMsg_of_method hmethod]
      rfl
    · rw [fieldStr_strcpyField h3 h0b]
      exact hfit

/-- **The HTTP branch is safe** exactly on the lines of `HttpSafe`. -/
theorem http_isSome_iff (h0 : 0 ∉ L) (hm : ¬ bytes "mqtt" <+: L)
    (hh : bytes "GET" <+: L ∨ bytes "POST" <+: L) : (dispatch strict L).isSome ↔ HttpSafe L := by
  have hd : dispatch strict L = httpRun L := by
    simp only [dispatch, List.isPrefixOf_iff_prefix, hm, hh, if_true, if_false, Option.bind_eq_bind, httpRun]
  rw [hd]
  by_cases hsp : chr ' ' ∈ L
  swap
  · exact iff_of_true (httpRun_no_space hsp) ⟨hh, .inl hsp⟩
  obtain ⟨m, r, rfl, hms⟩ := List.eq_append_cons_of_mem hsp
  have h0m : 0 ∉ m := fun h => h0 (by simp [h])
  have hne := method_ne_nil hh
  by_cases hsr : chr ' ' ∈ r
  swap
  · rw [httpRun_one_space h0m hne hms hsr]
    constructor
    · intro hlm
      exact ⟨hh, .inr ⟨m, r, rfl, hms, hlm, .inl hsr⟩⟩
    · rintro ⟨-, h | ⟨m', r', he, hms', hlm, -⟩⟩
      · exact absurd hsp h
      · obtain ⟨rfl, -⟩ := split_unique hms hms' he
        exact hlm
  obtain ⟨u, b, rfl, hus⟩ := List.eq_append_cons_of_mem hsr
  have h0b : 0 ∉ b := fun h => h0 (by simp [h])
  rw [httpRun_split h0m h0b hne hms hus]
  constructor
  · rintro ⟨hlm, hlu, hlb, hfit⟩
    exact ⟨hh, .inr ⟨m, _, rfl, hms, hlm, .inr ⟨u, b, rfl, hus, hlu, hlb, hfit⟩⟩⟩
  · rintro ⟨-, h | ⟨m', r', he, hms', hlm, h | ⟨u', b', rfl, hus', hlu, hlb, hfit⟩⟩⟩
    · exact absurd hsp h
    · obtain ⟨-, rfl⟩ := split_unique hms hms' he
      exact absurd hsr h
    · obtain ⟨rfl, he'⟩ := split_unique hms hms' he
      obtain ⟨rfl, rfl⟩ := split_unique hus hus' he'
      exact ⟨hlm, hlu, hlb, hfit⟩

/-! ## Other lines -/

/-- The line goes to the `else` branch of `main` and is long enough to be named. -/
def UnknownSafe (L : Bytes) : Prop :=
  ¬ bytes "mqtt" <+: L ∧ ¬ bytes "GET" <+: L ∧ ¬ bytes "POST" <+: L ∧ 10 < L.length

/-- **The fallback branch is safe** exactly on the lines of `UnknownSafe`. -/
theorem unknown_isSome_iff (hm : ¬ bytes "mqtt" <+: L)
    (hh : ¬ (bytes "GET" <+: L ∨ bytes "POST" <+: L)) : (dispatch strict L).isSome ↔ UnknownSafe L := by
  have hd : dispatch strict L = printUnknown L := by
    simp only [dispatch, List.isPrefixOf_iff_prefix, hm, hh, if_false]
  rw [hd]
  rw [not_or] at hh
  unfold UnknownSafe
  simp only [hm, hh.1, hh.2, not_false_eq_true, true_and]
  unfold printUnknown
  by_cases hl : 10 < L.length
  · obtain ⟨buf, hb⟩ := Arr.exists_store (default : Arr 20) 0 (bytes "Unknown format" ++ [0])
      (by decide)
    simp [hl, hb]
  · simp [hl]

/-! ## The whole run -/

/-- `main` reads the line back without its newline. -/
theorem main_line {lim : Limit} (rest : Bytes) (h0 : 0 ∉ L) (hnl : chr '\n' ∉ L) (hl : L.length ≤ 511) :
    main lim (L ++ chr '\n' :: rest) = (dispatch lim L).map (banner ++ ·) := by
  have htw : (L ++ chr '\n' :: rest).takeWhile (· ≠ chr '\n') = L := by
    rw [List.takeWhile_append_of_pos (fun c hc => by simpa using fun e : c = chr '\n' => hnl (e ▸ hc))]
    simp
  have hfg : ∃ e, fgets (L ++ chr '\n' :: rest) (MAX_BUFFER_SIZE * 2) = some (L ++ e) ∧
      (e = [] ∨ e = [chr '\n']) := by
    have ht : (L ++ chr '\n' :: rest).take (L.length + 1) = L ++ [chr '\n'] := by
      rw [List.append_cons, List.take_left' (by simp)]
    simp only [fgets, List.append_eq_nil_iff, reduceCtorEq, and_false, if_false, htw, ht]
    by_cases h : L.length = 511
    · exact ⟨[], by rw [List.append_nil, show MAX_BUFFER_SIZE * 2 - 1 = 511 from rfl, List.take_left' h], .inl rfl⟩
    · refine ⟨[chr '\n'], ?_, .inr rfl⟩
      rw [List.take_of_length_le]
      simp [MAX_BUFFER_SIZE]; omega
  obtain ⟨e, he, hee⟩ := hfg
  have hin : (cstr (L ++ e)).takeWhile (· ≠ chr '\n') = L := by
    rw [cstr_eq_self (by rcases hee with rfl | rfl <;> simp [h0, chr])]
    rw [List.takeWhile_append_of_pos (fun c hc => by simpa using fun e : c = chr '\n' => hnl (e ▸ hc))]
    rcases hee with rfl | rfl <;> simp
  unfold main
  rw [he]
  simp only [hin, Option.bind_eq_bind, Option.pure_def]
  cases dispatch lim L <;> rfl

/-- **The exact safe-input set of the parser program.** The run on a NUL-free line
of at most 511 bytes completes iff the line is safe for the branch it goes to. -/
theorem main_isSome_iff (rest : Bytes) (h0 : 0 ∉ L) (hnl : chr '\n' ∉ L) (hl : L.length ≤ 511) :
    (main strict (L ++ chr '\n' :: rest)).isSome ↔ MqttSafe L ∨ HttpSafe L ∨ UnknownSafe L := by
  rw [main_line rest h0 hnl hl, Option.isSome_map]
  by_cases hm : bytes "mqtt" <+: L
  · have hnot : ¬ (bytes "GET" <+: L ∨ bytes "POST" <+: L) := by
      obtain ⟨r, rfl⟩ := hm
      rintro (⟨t, h⟩ | ⟨t, h⟩) <;> exact absurd (List.cons.inj h).1 (by decide)
    rw [mqtt_isSome_iff h0 hl hm]
    exact ⟨.inl, fun h => h.resolve_right fun h => h.elim (fun h => hnot h.1) fun h => h.1 hm⟩
  · by_cases hh : bytes "GET" <+: L ∨ bytes "POST" <+: L
    · rw [http_isSome_iff h0 hm hh]
      exact ⟨fun h => .inr (.inl h), fun h => (h.resolve_left fun h => hm h.1).resolve_right
        fun h => hh.elim h.2.1 h.2.2.1⟩
    · rw [unknown_isSome_iff hm hh]
      exact ⟨fun h => .inr (.inr h), fun h => (h.resolve_left fun h => hm h.1).resolve_left
        fun h => hh h.1⟩

/-- `main_isSome_iff` at `GET /a {}`. -/
theorem main_isSome_iff_get : (main strict (bytes "GET /a {}" ++ chr '\n' :: [])).isSome ↔
    MqttSafe (bytes "GET /a {}") ∨ HttpSafe (bytes "GET /a {}") ∨ UnknownSafe (bytes "GET /a {}") :=
  main_isSome_iff [] (by decide) (by decide) (by decide)

/-- The run on `hello world` completes in the `else` branch, with neither an MQTT
nor an HTTP line. -/
theorem main_hello_world : 0 ∉ bytes "hello world" ∧ chr '\n' ∉ bytes "hello world" ∧
    (bytes "hello world").length ≤ 511 ∧
    (main strict (bytes "hello world" ++ chr '\n' :: [])).isSome ∧
    ¬ (MqttSafe (bytes "hello world") ∨ HttpSafe (bytes "hello world")) := by
  refine ⟨by decide, by decide, by decide, by decide, ?_⟩
  rintro (⟨h, -⟩ | ⟨h | h, -⟩) <;> exact absurd h (by decide)

end EspNetwork.Iot
