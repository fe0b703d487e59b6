import EspNetwork.Proof.IotBounds
import EspNetwork.Proof.IotFailure
import EspNetwork.Proof.IotRoundTrip
import EspNetwork.Spec.IotFuzz

/-!
# What the fuzz tests can find

* `expectMqtt_iff`, `expectHttp_iff`, `extract_short`: a parse that leaves no array meets all
  the expectations.
* `run_verdict`: **the arguments on which each test passes.** No expectation of a test is ever
  violated; what the tests can find are the reads and stores out of bounds, and
  `FuzzJsonKeyValue` finds none.
-/

namespace EspNetwork.Iot

open CLib

variable {u m r input json key : Bytes}

/-- A test ends with its expectations met exactly if `P` holds, and never with one violated. -/
def Verdict (result : Option Bool) (P : Prop) : Prop := result ≠ some false ∧ (result = some true ↔ P)

theorem Verdict.skip {P : Prop} (hp : P) : Verdict (some true) P := ⟨nofun, fun _ => hp, fun _ => rfl⟩

/-- The expectations follow from the success of the call. -/
theorem Verdict.map {α : Type*} {x : Option α} {expect : α → Bool} {P : Prop} (hx : x.isSome ↔ P)
    (he : ∀ a, x = some a → expect a = true) : Verdict (x.map expect) P := by
  cases x with
  | none => exact ⟨nofun, nofun, fun hp => absurd (hx.2 hp) nofun⟩
  | some a =>
    rw [Option.map_some, he a rfl]
    exact ⟨nofun, fun _ => hx.1 rfl, fun _ => rfl⟩

theorem Verdict.call {α : Type*} {x : Option α} {P : Prop} (hx : x.isSome ↔ P) : Verdict (x.map fun _ => true) P :=
  Verdict.map hx fun _ _ => rfl

/-! ## MQTT -/

/-- The topic and the payload fit their fields. -/
def MqttFits (r : Bytes) : Prop :=
  chr ' ' ∉ r ∨ ∃ t p, r = t ++ chr ' ' :: p ∧ chr ' ' ∉ t ∧ t.length ≤ 63 ∧ p.length ≤ 255

/-- The first four bytes do not matter. -/
theorem parseMqttTopic_prefix {lim : Limit} {msg : MqttMessage} (hu : u.length = 4) (r : Bytes) :
    parseMqttTopic lim (u ++ r) msg = parseMqttTopic lim (bytes "mqtt" ++ r) msg := by
  have hdrop : ∀ v : Bytes, v.length = 4 → ∀ k, (v ++ r).drop (4 + k) = r.drop k := by
    intro v hv k
    rw [← List.drop_drop, List.drop_left' hv]
  have hmqtt : (bytes "mqtt").length = 4 := rfl
  unfold parseMqttTopic
  simp only [Nat.add_assoc, hdrop u hu, hdrop _ hmqtt, List.drop_left' hu, List.drop_left' hmqtt]

/-- The bytes behind the prefix fit, and then so do the strings that are stored. -/
theorem mqttFits_of_parse {msg : MqttMessage} (h0 : 0 ∉ r) (hlen : r.length < 2 ^ 31)
    (h : parseMqttTopic strict (bytes "mqtt" ++ r) (Arr.zeros _) = some msg) :
    MqttFits r ∧ (fieldStr msg topic).length ≤ 63 ∧ (fieldStr msg payload).length ≤ 255 := by
  by_cases hsp : chr ' ' ∈ r
  · obtain ⟨t, p, rfl, ht⟩ := List.eq_append_cons_of_mem hsp
    have hjoin : bytes "mqtt" ++ (t ++ chr ' ' :: p) = joinMqtt t p := by rw [joinMqtt, List.append_assoc]
    have h0' : 0 ∉ joinMqtt t p := by
      rw [← hjoin, List.mem_append, not_or]
      exact ⟨by decide, h0⟩
    rw [hjoin] at h
    obtain ⟨⟨hlt, hlp⟩, htopic, hpayload⟩ := fields_of_parse ht h0' h
    rw [List.length_append] at hlen
    rw [htopic, hpayload, List.length_take]
    exact ⟨.inr ⟨t, p, rfl, ht, by omega, hlp⟩, by omega, hlp⟩
  · unfold parseMqttTopic at h
    rw [List.drop_left' (by rfl), strchr_eq_none_iff.2 hsp] at h
    cases h
    rw [fieldStr_zeros, fieldStr_zeros]
    exact ⟨.inl hsp, Nat.zero_le _, Nat.zero_le _⟩

theorem exists_parse_of_mqttFits (h : MqttFits r) :
    ∃ msg, parseMqttTopic strict (bytes "mqtt" ++ r) (Arr.zeros _) = some msg := by
  rcases h with hsp | ⟨t, p, rfl, ht, hlt, hlp⟩
  · refine ⟨Arr.zeros _, ?_⟩
    unfold parseMqttTopic
    rw [List.drop_left' (by rfl), strchr_eq_none_iff.2 hsp]
  · obtain ⟨msg, hmsg⟩ := exists_parse (Arr.zeros _) ht ((Nat.mod_le _ _).trans hlt) hlp
    exact ⟨msg, by rw [← hmsg, joinMqtt, List.append_assoc]⟩

/-- A string of four bytes or more, as the parser gets it. -/
theorem mqttArg_parse (h : 4 ≤ input.length) : (mqttArg input).bind (parseMqttTopic strict · (Arr.zeros _)) =
    parseMqttTopic strict (bytes "mqtt" ++ cstr (input.drop 4)) (Arr.zeros _) := by
  rw [mqttArg, if_pos h, Option.bind_some, parseMqttTopic_prefix (by simpa using h)]

theorem cstr_drop_short (h : input.length < 2 ^ 31) (k : ℕ) : (cstr (input.drop k)).length < 2 ^ 31 := by
  have h1 := length_cstr_le (input.drop k)
  rw [List.length_drop] at h1
  omega

/-- The call keeps to the arrays. -/
theorem mqttCall_iff (h : 4 ≤ input.length) (hlen : input.length < 2 ^ 31) :
    ((mqttArg input).bind (parseMqttTopic strict · (Arr.zeros _))).isSome ↔ MqttFits (cstr (input.drop 4)) := by
  rw [mqttArg_parse h]
  constructor
  · intro hsome
    obtain ⟨msg, hmsg⟩ := Option.isSome_iff_exists.1 hsome
    exact (mqttFits_of_parse (not_mem_cstr _) (cstr_drop_short hlen 4) hmsg).1
  · exact fun hfit => Option.isSome_iff_exists.2 (exists_parse_of_mqttFits hfit)

/-- The expectations on an MQTT message. -/
theorem expectMqtt_iff (h : 4 ≤ input.length) (hlen : input.length < 2 ^ 31) :
    Verdict (expectMqtt input) (MqttFits (cstr (input.drop 4))) := by
  have hexpect : expectMqtt input = ((mqttArg input).bind (parseMqttTopic strict · (Arr.zeros _))).map fun msg =>
      decide ((fieldStr msg topic).length ≤ 63) && decide ((fieldStr msg payload).length ≤ 255) := by
    simp only [Option.map_eq_bind, Option.bind_assoc]
    rfl
  rw [hexpect]
  refine Verdict.map (mqttCall_iff h hlen) fun msg hmsg => ?_
  rw [mqttArg_parse h] at hmsg
  obtain ⟨-, ht, hp⟩ := mqttFits_of_parse (not_mem_cstr _) (cstr_drop_short hlen 4) hmsg
  rw [decide_eq_true ht, decide_eq_true hp, Bool.and_self]

/-! ## HTTP -/

/-- The method, the path and the body fit their fields, as far as there are spaces. -/
def HttpFits (L : Bytes) : Prop :=
  chr ' ' ∉ L ∨ ∃ m r, L = m ++ chr ' ' :: r ∧ chr ' ' ∉ m ∧ m.length ≤ 7 ∧
    (chr ' ' ∉ r ∨ ∃ u b, r = u ++ chr ' ' :: b ∧ chr ' ' ∉ u ∧ u.length ≤ 63 ∧ b.length ≤ 255)

/-- A store to the method alone leaves the other two strings empty. -/
theorem fields_of_method {msg : HttpMessage} (h : strcpyField strict (Arr.zeros _) method m = some msg) :
    fieldStr msg path = [] ∧ fieldStr msg body = [] := by
  have hlm : m.length < method.size := (strcpyField_strict (by decide)).1 ⟨msg, h⟩
  have hoff : ∀ f : Field, 8 ≤ f.off → fieldStr msg f = [] := by
    intro f hf
    have hdrop := Arr.drop_store (j := f.off) (strcpyField_store h) (by simp [method] at hlm ⊢; omega)
    rw [fieldStr, hdrop]
    exact fieldStr_zeros
  exact ⟨hoff path (by decide), hoff body (by decide)⟩

theorem httpFits_of_parse {msg : HttpMessage} (h0 : 0 ∉ u) (h : parseHttpRequest strict u (Arr.zeros _) = some msg) :
    HttpFits u ∧ (fieldStr msg method).length ≤ 7 ∧ (fieldStr msg path).length ≤ 63 ∧ (fieldStr msg body).length ≤ 255 := by
  by_cases hsp : chr ' ' ∈ u
  swap
  · rw [parseHttpRequest_no_space hsp] at h
    cases h
    simp only [fieldStr_zeros]
    exact ⟨.inl hsp, Nat.zero_le _, Nat.zero_le _, Nat.zero_le _⟩
  obtain ⟨m, r, rfl, hm⟩ := List.eq_append_cons_of_mem hsp
  simp only [List.mem_append, List.mem_cons, not_or] at h0
  obtain ⟨h0m, -, h0r⟩ := h0
  by_cases hsr : chr ' ' ∈ r
  swap
  · rw [parseHttpRequest_one_space hm hsr] at h
    have hlm : m.length < method.size := (strcpyField_strict (by decide)).1 ⟨msg, h⟩
    obtain ⟨hpath, hbody⟩ := fields_of_method h
    rw [fieldStr_strcpyField h h0m, hpath, hbody]
    exact ⟨.inr ⟨m, r, rfl, hm, Nat.le_of_lt_succ hlm, .inl hsr⟩, Nat.le_of_lt_succ hlm, Nat.zero_le _, Nat.zero_le _⟩
  obtain ⟨v, b, rfl, hv⟩ := List.eq_append_cons_of_mem hsr
  simp only [List.mem_append, List.mem_cons, not_or] at h0r
  obtain ⟨h0v, -, h0b⟩ := h0r
  rw [parseHttpRequest_split hm hv] at h
  obtain ⟨msg1, h1, h⟩ := Option.bind_eq_some_iff.1 h
  obtain ⟨msg2, h2, h3⟩ := Option.bind_eq_some_iff.1 h
  have hlm : m.length < method.size := (strcpyField_strict (by decide)).1 ⟨msg1, h1⟩
  have hlv : v.length < path.size := (strcpyField_strict (by decide)).1 ⟨msg2, h2⟩
  have hlb : b.length < body.size := (strcpyField_strict (by decide)).1 ⟨msg, h3⟩
  obtain ⟨em, ev, eb⟩ := fields_of_http h1 h2 h3 h0m h0v h0b
  rw [em, ev, eb]
  exact ⟨.inr ⟨m, _, rfl, hm, Nat.le_of_lt_succ hlm, .inr ⟨v, b, rfl, hv, Nat.le_of_lt_succ hlv, Nat.le_of_lt_succ hlb⟩⟩,
    Nat.le_of_lt_succ hlm, Nat.le_of_lt_succ hlv, Nat.le_of_lt_succ hlb⟩

theorem exists_parse_of_httpFits (h : HttpFits u) : ∃ msg, parseHttpRequest strict u (Arr.zeros _) = some msg := by
  rcases h with hsp | ⟨m, r, rfl, hm, hlm, hsr | ⟨v, b, rfl, hv, hlv, hlb⟩⟩
  · exact ⟨_, parseHttpRequest_no_space hsp⟩
  · rw [parseHttpRequest_one_space hm hsr]
    exact exists_strcpy _ method m (by decide) (Nat.lt_succ_of_le hlm)
  · obtain ⟨msg1, h1⟩ := exists_strcpy (Arr.zeros _ : HttpMessage) method m (by decide) (Nat.lt_succ_of_le hlm)
    obtain ⟨msg2, h2⟩ := exists_strcpy msg1 path v (by decide) (Nat.lt_succ_of_le hlv)
    obtain ⟨msg3, h3⟩ := exists_strcpy msg2 body b (by decide) (Nat.lt_succ_of_le hlb)
    exact ⟨msg3, by rw [parseHttpRequest_split hm hv, h1, Option.bind_some, h2, Option.bind_some, h3]⟩

theorem httpCall_iff (input : Bytes) :
    (parseHttpRequest strict (cstr input) (Arr.zeros _)).isSome ↔ HttpFits (cstr input) := by
  constructor
  · intro hsome
    obtain ⟨msg, hmsg⟩ := Option.isSome_iff_exists.1 hsome
    exact (httpFits_of_parse (not_mem_cstr _) hmsg).1
  · exact fun hfit => Option.isSome_iff_exists.2 (exists_parse_of_httpFits hfit)

/-- The expectations on an HTTP message. -/
theorem expectHttp_iff (input : Bytes) : Verdict (expectHttp input) (HttpFits (cstr input)) := by
  have hexpect : expectHttp input = (parseHttpRequest strict (cstr input) (Arr.zeros _)).map fun msg =>
      decide ((fieldStr msg method).length ≤ 7) && decide ((fieldStr msg path).length ≤ 63) &&
        decide ((fieldStr msg body).length ≤ 255) := Option.map_eq_bind.symm
  rw [hexpect]
  refine Verdict.map (httpCall_iff input) fun msg hmsg => ?_
  obtain ⟨-, hm, hp, hb⟩ := httpFits_of_parse (not_mem_cstr _) hmsg
  rw [decide_eq_true hm, decide_eq_true hp, decide_eq_true hb]
  rfl

/-! ## JSON -/

/-- **What an extraction reports** is never negative, and its string ends inside the array. -/
theorem extract_short {r : Int} {value : Arr MAX_VALUE_SIZE} (hk : key.length ≤ MAX_KEY_SIZE) (h0 : 0 ∉ json)
    (hlen : json.length < 2 ^ 31) (h : extractJsonValue json key (Arr.zeros MAX_VALUE_SIZE) = some (r, value)) :
    0 ≤ r ∧ (cstr value.data).length ≤ 63 := by
  have hzeros : (cstr (Arr.zeros MAX_VALUE_SIZE).data).length ≤ 63 := by
    rw [Arr.zeros, cstr_replicate]
    exact Nat.zero_le _
  rcases extract_cases json key with hs | ⟨v, t, hat, hv⟩ | ⟨v, hat, hv⟩ | ⟨rest, hat, hq⟩
  · rw [extract_absent hs] at h
    cases h
    exact ⟨le_refl _, hzeros⟩
  · have hvlen := atValue_length hat
    simp only [List.length_append, List.length_cons] at hvlen
    obtain ⟨a, ws, hj, -, -⟩ := (atValue_iff hk).1 hat
    have h0v : 0 ∉ v := fun hmem => h0 (by rw [hj]; simp [hmem])
    rw [extract_quoted hat hv (by omega)] at h
    obtain ⟨out, hout, he⟩ := Option.map_eq_some_iff.1 h
    cases he
    have hfits : v.length < MAX_VALUE_SIZE := (strcpyField_strict (by decide)).1 ⟨_, hout⟩
    have hstr := fieldStr_strcpyField hout h0v
    rw [fieldStr, List.drop_zero] at hstr
    rw [hstr]
    exact ⟨Int.natCast_nonneg _, Nat.le_of_lt_succ hfits⟩
  · rw [extract_open hat hv] at h
    cases h
    exact ⟨le_refl _, hzeros⟩
  · have hrest := atValue_length hat
    have hend := strtol_length_le (head_not_isspace ((atValue_iff_follows hk).1 hat))
    rw [extract_number hat hq] at h
    obtain ⟨out, hout, he⟩ := Option.map_eq_some_iff.1 h
    obtain ⟨rfl, rfl⟩ := Prod.mk.inj he
    have hstr := Arr.cstr_store hout (not_mem_printLd (by decide) (by decide) _)
    rw [List.drop_zero] at hstr
    have := length_printLd_le (strtol_range rest).1 (strtol_range rest).2
    rw [hstr, toInt_of_lt (by omega)]
    omega

namespace FuzzCase

/-! ## The tests -/

/-- The arguments that the expectations of a test are met on. -/
def Passes : FuzzCase → Prop
  | mqttTopicParsing input => MqttFits (cstr (input.drop 4))
  | jsonExtraction json key => json = [] ∨ key = [] ∨ ValueFits 63 (cstr json) (cstr key)
  | httpRequestParsing input => HttpFits (cstr input)
  | mqttStructured topic payload => topic = [] ∨ payload = [] ∨ MqttFits (cstr (topic ++ chr ' ' :: payload))
  | jsonKeyValue _ _ _ _ => True
  | httpMethodPath method path body =>
      method = [] ∨ path = [] ∨ HttpFits (cstr (method ++ chr ' ' :: (path ++ chr ' ' :: body)))
  | edgeCases inputType data =>
      if inputType % 3 = 0 then 4 ≤ data.length ∧ MqttFits (cstr (data.drop 4))
      else if inputType % 3 = 1 then ValueFits 63 (cstr data) (bytes "test")
      else HttpFits (cstr data)

/-- The extraction inside its array. -/
theorem extract_fits_iff (json key : Bytes) (hj : json.length < 2 ^ 31) (hk : key.length ≤ MAX_KEY_SIZE) :
    (extractJsonValue (cstr json) (cstr key) (Arr.zeros MAX_VALUE_SIZE)).isSome ↔ ValueFits 63 (cstr json) (cstr key) :=
  extract_isSome_iff _ ((length_cstr_le key).trans hk) (lt_of_le_of_lt (length_cstr_le json) hj) (by decide)

theorem jsonExtraction_verdict (hj : json.length ≤ 500) (hk : key.length ≤ 30) :
    Verdict (fuzzJsonExtraction json key) (jsonExtraction json key).Passes := by
  have hk' : key.length ≤ MAX_KEY_SIZE := hk.trans (by decide)
  have hj' : json.length < 2 ^ 31 := by omega
  simp only [fuzzJsonExtraction, Passes]
  split
  · rename_i hskip
    refine .skip ?_
    rcases hskip with h | h | h | h
    · exact .inl h
    · exact .inr (.inl h)
    · omega
    · omega
  · rename_i hrun
    simp only [not_or] at hrun
    obtain ⟨hjson, hkey, -, -⟩ := hrun
    rw [or_iff_right hjson, or_iff_right hkey]
    have hexpect : ∀ p, extractJsonValue (cstr json) (cstr key) (Arr.zeros MAX_VALUE_SIZE) = some p →
        (decide (0 ≤ p.1) && (decide (p.1 ≤ 0) || decide ((cstr p.2.data).length ≤ MAX_VALUE_SIZE - 1))) = true := by
      intro p hp
      obtain ⟨hpos, hlen⟩ := extract_short ((length_cstr_le key).trans hk') (not_mem_cstr json)
        (lt_of_le_of_lt (length_cstr_le json) hj') hp
      have h63 : (cstr p.2.data).length ≤ MAX_VALUE_SIZE - 1 := hlen
      rw [decide_eq_true hpos, decide_eq_true h63, Bool.or_true, Bool.and_true]
    have hverdict := Verdict.map (extract_fits_iff json key hj' hk') hexpect
    rwa [Option.map_eq_bind] at hverdict

/-- The text of the test stays so short that nothing can overflow. -/
theorem jsonKeyValue_verdict {pre val suf : Bytes} (hp : pre.length ≤ 50) (hk : key.length ≤ 20) (hv : val.length ≤ 50)
    (hs : suf.length ≤ 50) : Verdict (fuzzJsonKeyValue pre key val suf) (jsonKeyValue pre key val suf).Passes := by
  simp only [fuzzJsonKeyValue, Passes]
  split
  · exact .skip trivial
  rename_i hkey
  have hone : 1 ≤ key.length := List.length_pos_iff.2 fun hnil => hkey (.inl hnil)
  have hk' : key.length ≤ MAX_KEY_SIZE := hk.trans (by decide)
  have hbound : storeBound pre key val ≤ 51 := by
    unfold storeBound
    omega
  have hfits : FoundFits pre key val suf := foundFits_of_short hone hk' (by omega) (by omega)
  obtain ⟨r, out, hout, -, hstr⟩ := extract_bounded (Arr.zeros MAX_VALUE_SIZE) hone hk' hfits (hbound.trans (by decide))
  have hshort : ¬ (pre ++ [chr '"'] ++ key ++ [chr '"', chr ':', chr '"'] ++ val ++ [chr '"'] ++ suf).length > 800 := by
    simp only [List.length_append, List.length_cons, List.length_nil]
    omega
  rw [if_neg hshort, ← fuzzJson, hout]
  change Verdict (some (decide (r ≤ 0) || (decide ((cstr out.data).length ≤ MAX_VALUE_SIZE - 1) &&
    decide (0 < (cstr out.data).length)))) True
  by_cases hr : 0 < r
  · obtain ⟨hne, hlen⟩ := hstr hr
    have h63 : (cstr out.data).length ≤ MAX_VALUE_SIZE - 1 := by
      have hsize : MAX_VALUE_SIZE - 1 = 63 := rfl
      omega
    rw [decide_eq_true h63, decide_eq_true (List.length_pos_iff.2 hne), Bool.and_true, Bool.or_true]
    exact .skip trivial
  · rw [decide_eq_true (not_lt.1 hr), Bool.true_or]
    exact .skip trivial

/-- The calls without expectations. -/
theorem edgeCases_verdict {inputType : ℕ} {data : Bytes} (hlen : data.length ≤ 300) :
    Verdict (fuzzEdgeCases inputType data) (edgeCases inputType data).Passes := by
  have hlong : ¬ data.length > 500 := by omega
  simp only [fuzzEdgeCases, Passes, if_neg hlong]
  split
  · by_cases h4 : 4 ≤ data.length
    · rw [and_iff_right h4]
      have hcall := Verdict.call (mqttCall_iff h4 (by omega))
      rwa [Option.map_eq_bind, Option.bind_assoc] at hcall
    · -- there is no fifth byte
      rw [mqttArg, if_neg h4]
      exact ⟨nofun, nofun, fun hfit => absurd hfit.1 h4⟩
  split
  · have hcall := Verdict.call (extract_fits_iff data (bytes "test") (by omega) (by decide))
    rwa [Option.map_eq_bind] at hcall
  · have hcall := Verdict.call (httpCall_iff data)
    rwa [Option.map_eq_bind] at hcall

/-- **What a fuzz test finds**, over all that its domains generate: no expectation is ever
violated, and it passes exactly where the texts fit their arrays. -/
theorem run_verdict (c : FuzzCase) (h : c.InDomain) : Verdict c.run c.Passes := by
  cases c with
  | mqttTopicParsing input =>
    obtain ⟨h4, hlen⟩ := h
    simp only [run, fuzzMqttTopicParsing, if_neg (not_lt.2 h4)]
    exact expectMqtt_iff h4 (by omega)
  | jsonExtraction json key => exact jsonExtraction_verdict h.1 h.2
  | httpRequestParsing input =>
    unfold InDomain at h
    simp only [run, fuzzHttpRequestParsing, Passes]
    split
    · rename_i hskip
      refine .skip (.inl ?_)
      rcases hskip with rfl | hlong
      · exact List.not_mem_nil
      · omega
    · exact expectHttp_iff input
  | mqttStructured topic payload =>
    obtain ⟨ht, hp⟩ := h
    have hlen : (bytes "mqtt" ++ topic ++ [chr ' '] ++ payload).length ≤ 305 := by
      have h4 : (bytes "mqtt").length = 4 := rfl
      simp only [List.length_append, List.length_singleton, h4]
      omega
    have hdrop : (bytes "mqtt" ++ topic ++ [chr ' '] ++ payload).drop 4 = topic ++ chr ' ' :: payload := by
      simp only [List.append_assoc]
      exact List.drop_left' rfl
    simp only [run, fuzzMqttStructured, Passes]
    split
    · rename_i hskip
      exact .skip (hskip.imp_right .inl)
    · rename_i hrun
      rw [not_or] at hrun
      rw [or_iff_right hrun.1, or_iff_right hrun.2, ← hdrop]
      simp only [if_neg (show ¬ (bytes "mqtt" ++ topic ++ [chr ' '] ++ payload).length > 1000 by omega)]
      refine expectMqtt_iff ?_ (by omega)
      have h4 : (bytes "mqtt").length = 4 := rfl
      simp only [List.length_append, h4]
      omega
  | jsonKeyValue pre key value suf => exact jsonKeyValue_verdict h.1 h.2.1 h.2.2.1 h.2.2.2
  | httpMethodPath method path body =>
    obtain ⟨hm, hp, hb⟩ := h
    simp only [run, fuzzHttpMethodPath, Passes]
    split
    · rename_i hskip
      exact .skip (hskip.imp_right .inl)
    · rename_i hrun
      rw [not_or] at hrun
      rw [or_iff_right hrun.1, or_iff_right hrun.2]
      have hreq : method ++ [chr ' '] ++ path ++ [chr ' '] ++ body = method ++ chr ' ' :: (path ++ chr ' ' :: body) := by
        simp only [List.append_assoc, List.cons_append, List.nil_append]
      simp only [hreq]
      rw [if_neg (by simp only [List.length_append, List.length_cons]; omega)]
      exact expectHttp_iff _
  | edgeCases inputType data => exact edgeCases_verdict h.2

/-- A method of nine bytes leaves its array. -/
theorem run_verdict_method : (httpMethodPath (bytes "PROPPATCH") (bytes "/a") []).run ≠ some true := by
  intro hrun
  have hdomain : (httpMethodPath (bytes "PROPPATCH") (bytes "/a") []).InDomain := by
    unfold InDomain
    decide
  have htext : cstr (bytes "PROPPATCH" ++ chr ' ' :: (bytes "/a" ++ chr ' ' :: [])) =
      bytes "PROPPATCH" ++ chr ' ' :: bytes "/a " := by decide
  rcases (run_verdict _ hdomain).2.1 hrun with h | h | h
  · exact absurd h (by decide)
  · exact absurd h (by decide)
  · rw [htext] at h
    rcases h with hno | ⟨m, r, he, hm, hlm, -⟩
    · exact hno (by decide)
    · obtain ⟨rfl, -⟩ := split_unique (by decide) hm he
      exact absurd hlm (by decide)

end FuzzCase

end EspNetwork.Iot
