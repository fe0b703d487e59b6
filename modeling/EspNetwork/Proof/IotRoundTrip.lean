import EspNetwork.Proof.IotSafe

/-!
# Parsing and formatting

* `parseMqttTopic_join`, `parseHttpRequest_join`: the parsers take a formatted message
  apart again.
* `parseHttpRequest_rejoin`: what `parse_http_request` takes apart, without leaving a
  field, gives the line back.
* `parseMqttTopic_rejoin_iff`: for `parse_mqtt_topic` this holds iff no topic of 2^32
  bytes or more is cut to one that fits, since its length is kept in an `int`.
* `round_trip_iff`: **both directions, for both kinds.**
-/

namespace EspNetwork.Iot

open CLib

variable {t p m u b input : Bytes}

/-- An MQTT line. -/
def joinMqtt (t p : Bytes) : Bytes := bytes "mqtt" ++ t ++ chr ' ' :: p

/-- An HTTP line. -/
def joinHttp (m u b : Bytes) : Bytes := m ++ chr ' ' :: (u ++ chr ' ' :: b)

/-! ## Formatting, then parsing -/

/-- What two copies leave: the topic ends before the payload starts. -/
theorem fields_of_mqtt {msg msg1 msg2 : MqttMessage} (h1 : strcpyField strict msg topic t = some msg1)
    (h2 : strcpyField strict msg1 payload p = some msg2) (h0t : 0 ∉ t) (h0p : 0 ∉ p) :
    fieldStr msg2 topic = t ∧ fieldStr msg2 payload = p := by
  have hlt : t.length < topic.size := (strcpyField_strict (by decide)).1 ⟨msg1, h1⟩
  have ht := fieldStr_strcpyField h1 h0t
  refine ⟨?_, fieldStr_strcpyField h2 h0p⟩
  have hend : topic.off + (fieldStr msg1 topic).length < payload.off := by
    rw [ht]
    simpa [topic, payload] using hlt
  rw [fieldStr_strcpyField_of_lt h2 hend, ht]

/-- **A formatted MQTT message is taken apart again.** -/
theorem parseMqttTopic_join (msg : MqttMessage) (ht : chr ' ' ∉ t) (h0t : 0 ∉ t) (h0p : 0 ∉ p)
    (hlt : t.length ≤ 63) (hlp : p.length ≤ 255) : ∃ msg', parseMqttTopic strict (joinMqtt t p) msg = some msg' ∧
      fieldStr msg' topic = t ∧ fieldStr msg' payload = p := by
  obtain ⟨msg1, h1⟩ := exists_strcpy msg topic t (by decide) (Nat.lt_succ_of_le hlt)
  obtain ⟨msg2, h2⟩ := exists_strcpy msg1 payload p (by decide) (Nat.lt_succ_of_le hlp)
  refine ⟨msg2, ?_, fields_of_mqtt h1 h2 h0t h0p⟩
  rw [joinMqtt, parseMqttTopic_split ht (by omega), h1, Option.bind_some, h2]

/-- What three copies leave. -/
theorem fields_of_http {msg msg1 msg2 msg3 : HttpMessage} (h1 : strcpyField strict msg method m = some msg1)
    (h2 : strcpyField strict msg1 path u = some msg2) (h3 : strcpyField strict msg2 body b = some msg3)
    (h0m : 0 ∉ m) (h0u : 0 ∉ u) (h0b : 0 ∉ b) :
    fieldStr msg3 method = m ∧ fieldStr msg3 path = u ∧ fieldStr msg3 body = b := by
  have hlm : m.length < method.size := (strcpyField_strict (by decide)).1 ⟨msg1, h1⟩
  have hlu : u.length < path.size := (strcpyField_strict (by decide)).1 ⟨msg2, h2⟩
  have hm1 := fieldStr_strcpyField h1 h0m
  have hu2 := fieldStr_strcpyField h2 h0u
  have hm2 : fieldStr msg2 method = m := by
    rw [fieldStr_strcpyField_of_lt h2, hm1]
    rw [hm1]
    simpa [method, path] using hlm
  refine ⟨?_, ?_, fieldStr_strcpyField h3 h0b⟩
  · rw [fieldStr_strcpyField_of_lt h3, hm2]
    rw [hm2]
    simp only [method, body] at hlm ⊢
    omega
  · rw [fieldStr_strcpyField_of_lt h3, hu2]
    rw [hu2]
    simp only [path, body] at hlu ⊢
    omega

/-- **A formatted HTTP request is taken apart again.** -/
theorem parseHttpRequest_join (msg : HttpMessage) (hm : chr ' ' ∉ m) (hu : chr ' ' ∉ u) (h0m : 0 ∉ m) (h0u : 0 ∉ u)
    (h0b : 0 ∉ b) (hlm : m.length ≤ 7) (hlu : u.length ≤ 63) (hlb : b.length ≤ 255) :
    ∃ msg', parseHttpRequest strict (joinHttp m u b) msg = some msg' ∧
      fieldStr msg' method = m ∧ fieldStr msg' path = u ∧ fieldStr msg' body = b := by
  obtain ⟨msg1, h1⟩ := exists_strcpy msg method m (by decide) (Nat.lt_succ_of_le hlm)
  obtain ⟨msg2, h2⟩ := exists_strcpy msg1 path u (by decide) (Nat.lt_succ_of_le hlu)
  obtain ⟨msg3, h3⟩ := exists_strcpy msg2 body b (by decide) (Nat.lt_succ_of_le hlb)
  refine ⟨msg3, ?_, fields_of_http h1 h2 h3 h0m h0u h0b⟩
  rw [joinHttp, parseHttpRequest_split hm hu, h1, Option.bind_some, h2, Option.bind_some, h3]

/-! ## Parsing, then formatting -/

/-- `parse_http_request` finds both its spaces. -/
def HttpSpaces (input : Bytes) : Prop :=
  ∃ i j, strchr input (chr ' ') = some i ∧ strchr (input.drop (i + 1)) (chr ' ') = some j

/-- Where `strchr` finds a byte. -/
theorem strchr_eq_some {s : Bytes} {c : Byte} {k : Nat} (h : strchr s c = some k) :
    ∃ u v, s = u ++ c :: v ∧ c ∉ u ∧ u.length = k := by
  have hmem : c ∈ s := by
    by_contra hn
    rw [strchr_eq_none_iff.2 hn] at h
    cases h
  obtain ⟨u, v, rfl, hu⟩ := List.eq_append_cons_of_mem hmem
  rw [strchr_append hu, Option.some.injEq] at h
  exact ⟨u, v, rfl, hu, h⟩

/-- **A parsed HTTP request gives the line back.** -/
theorem parseHttpRequest_rejoin {msg msg' : HttpMessage} (h0 : 0 ∉ input) (hsp : HttpSpaces input)
    (h : parseHttpRequest strict input msg = some msg') :
    joinHttp (fieldStr msg' method) (fieldStr msg' path) (fieldStr msg' body) = input := by
  obtain ⟨i, j, hi, hj⟩ := hsp
  obtain ⟨m, r, rfl, hm, rfl⟩ := strchr_eq_some hi
  have hd : (m ++ chr ' ' :: r).drop (m.length + 1) = r := by
    rw [List.append_cons, List.drop_left' (by simp)]
  rw [hd] at hj
  obtain ⟨u, b, rfl, hu, rfl⟩ := strchr_eq_some hj
  rw [parseHttpRequest_split hm hu] at h
  obtain ⟨msg1, h1, h⟩ := Option.bind_eq_some_iff.1 h
  obtain ⟨msg2, h2, h3⟩ := Option.bind_eq_some_iff.1 h
  simp only [List.mem_append, List.mem_cons, not_or] at h0
  obtain ⟨h0m, -, h0u, -, h0b⟩ := h0
  obtain ⟨em, eu, eb⟩ := fields_of_http h1 h2 h3 h0m h0u h0b
  rw [em, eu, eb, joinHttp]

/-- **What `parse_mqtt_topic` does** when it finds its space: the length of the topic
goes through an `int`. -/
theorem parseMqttTopic_space (msg : MqttMessage) (ht : chr ' ' ∉ t) :
    parseMqttTopic strict (joinMqtt t p) msg =
      (strncpyField strict msg topic (t ++ chr ' ' :: p) (toInt t.length)).bind fun msg =>
        strcpyField strict msg payload p := by
  have h4 : (joinMqtt t p).drop 4 = t ++ chr ' ' :: p := by
    rw [joinMqtt, List.append_assoc, List.drop_left' (by rfl)]
  have hp : (joinMqtt t p).drop (4 + t.length + 1) = p := by
    rw [show 4 + t.length + 1 = 4 + (t.length + 1) from rfl, ← List.drop_drop, h4, List.append_cons,
      List.drop_left' (by simp)]
  unfold parseMqttTopic
  rw [h4, strchr_append ht]
  simp only [Option.bind_eq_bind, hp]

/-- A message whose topic was cut is not the line: its topic is too short. -/
theorem joinMqtt_take {j : Nat} : joinMqtt (t.take j) p = joinMqtt t p ↔ t.length ≤ j := by
  constructor
  · intro h
    have hlen := congrArg List.length h
    simp only [joinMqtt, List.length_append, List.length_cons, List.length_take] at hlen
    omega
  · intro h
    rw [List.take_of_length_le h]

/-- `strncpy` with a length that is not negative stores the topic cut to it. -/
theorem strncpyTopic (msg : MqttMessage) {j : Nat} (hj : j ≤ t.length) :
    strncpyField strict msg topic (t ++ chr ' ' :: p) j = strcpyField strict msg topic (t.take j) := by
  have htake : (t ++ chr ' ' :: p).take j = t.take j := List.take_append_of_le_length hj
  have hle : j ≤ (t ++ chr ' ' :: p).length := by
    rw [List.length_append]
    omega
  rw [strncpyField_ofNat hle, htake]

/-- **What a parse that leaves no field has stored.** -/
theorem fields_of_parse {msg msg' : MqttMessage} (ht : chr ' ' ∉ t) (h0 : 0 ∉ joinMqtt t p)
    (h : parseMqttTopic strict (joinMqtt t p) msg = some msg') :
    (t.length % 2 ^ 32 ≤ 63 ∧ p.length ≤ 255) ∧
      fieldStr msg' topic = t.take (t.length % 2 ^ 32) ∧ fieldStr msg' payload = p := by
  have h0t : 0 ∉ t.take (t.length % 2 ^ 32) := fun hm => h0 (by simp [joinMqtt, List.mem_of_mem_take hm])
  have h0p : 0 ∉ p := fun hm => h0 (by simp [joinMqtt, hm])
  have hmod := Nat.mod_le t.length (2 ^ 32)
  rw [parseMqttTopic_space msg ht] at h
  rcases toInt_cases t.length with ⟨-, hint⟩ | ⟨hge, hint⟩
  · rw [hint, strncpyTopic msg hmod] at h
    obtain ⟨msg1, h1, h2⟩ := Option.bind_eq_some_iff.1 h
    have hlt : (t.take (t.length % 2 ^ 32)).length < topic.size := (strcpyField_strict (by decide)).1 ⟨msg1, h1⟩
    have hlp : p.length < payload.size := (strcpyField_strict (by decide)).1 ⟨msg', h2⟩
    rw [List.length_take, min_eq_left hmod] at hlt
    exact ⟨⟨Nat.le_of_lt_succ hlt, Nat.le_of_lt_succ hlp⟩, fields_of_mqtt h1 h2 h0t h0p⟩
  · -- a negative length leaves the field
    rw [strncpyField_negative (by omega)] at h
    cases h

/-- The parse leaves no field if the topic's length modulo 2^32 fits, and the payload does. -/
theorem exists_parse (msg : MqttMessage) (ht : chr ' ' ∉ t) (hlt : t.length % 2 ^ 32 ≤ 63) (hlp : p.length ≤ 255) :
    ∃ msg', parseMqttTopic strict (joinMqtt t p) msg = some msg' := by
  have hmod := Nat.mod_le t.length (2 ^ 32)
  obtain ⟨msg1, h1⟩ := exists_strcpy msg topic (t.take (t.length % 2 ^ 32)) (by decide)
    (by rw [List.length_take, min_eq_left hmod]; exact Nat.lt_succ_of_le hlt)
  obtain ⟨msg2, h2⟩ := exists_strcpy msg1 payload p (by decide) (Nat.lt_succ_of_le hlp)
  have hint : toInt t.length = (t.length % 2 ^ 32 : Nat) := by
    have := toInt_cases t.length
    omega
  refine ⟨msg2, ?_⟩
  rw [parseMqttTopic_space msg ht, hint, strncpyTopic msg hmod, h1, Option.bind_some, h2]

/-- The topic is kept as a whole, or one of the copies leaves its field. -/
def TopicKept (input : Bytes) : Prop :=
  ∀ t p, input = joinMqtt t p → chr ' ' ∉ t → t.length % 2 ^ 32 ≤ 63 → p.length ≤ 255 → t.length < 2 ^ 32

/-- **A parsed MQTT message gives the line back iff its topic is kept.** -/
theorem parseMqttTopic_rejoin_iff (h0 : 0 ∉ input) (hm : bytes "mqtt" <+: input)
    (hsp : chr ' ' ∈ input.drop 4) :
    (∀ msg msg', parseMqttTopic strict input msg = some msg' →
      joinMqtt (fieldStr msg' topic) (fieldStr msg' payload) = input) ↔ TopicKept input := by
  constructor
  · rintro h t p rfl ht hlt hlp
    obtain ⟨msg', hmsg⟩ := exists_parse (Arr.zeros _) ht hlt hlp
    have hjoin := h (Arr.zeros _) msg' hmsg
    obtain ⟨-, et, ep⟩ := fields_of_parse ht h0 hmsg
    rw [et, ep, joinMqtt_take] at hjoin
    omega
  · intro h msg msg' hmsg
    obtain ⟨r, rfl⟩ := hm
    rw [List.drop_left' (by rfl)] at hsp
    obtain ⟨t, p, rfl, ht⟩ := List.eq_append_cons_of_mem hsp
    rw [← List.append_assoc] at h0 h hmsg ⊢
    obtain ⟨⟨hlt, hlp⟩, et, ep⟩ := fields_of_parse ht h0 hmsg
    have hlen := h t p rfl ht hlt hlp
    rw [et, ep, ← joinMqtt, joinMqtt_take, Nat.mod_eq_of_lt hlen]

/-! ## Both directions -/

/-- **The law of parsing and formatting**, at one input. -/
structure RoundTrips (input : Bytes) : Prop where
  /-- a formatted MQTT message is taken apart again -/
  mqtt : ∀ (msg : MqttMessage) t p, input = joinMqtt t p → chr ' ' ∉ t → 0 ∉ t → t.length ≤ 63 → 0 ∉ p →
    p.length ≤ 255 → ∃ msg', parseMqttTopic strict input msg = some msg' ∧ fieldStr msg' topic = t ∧
      fieldStr msg' payload = p
  /-- a formatted HTTP request is taken apart again -/
  http : ∀ (msg : HttpMessage) m u b, input = joinHttp m u b → chr ' ' ∉ m → 0 ∉ m → m.length ≤ 7 → chr ' ' ∉ u →
    0 ∉ u → u.length ≤ 63 → 0 ∉ b → b.length ≤ 255 → ∃ msg', parseHttpRequest strict input msg = some msg' ∧
      fieldStr msg' method = m ∧ fieldStr msg' path = u ∧ fieldStr msg' body = b
  /-- an MQTT message that is taken apart, no field overrun, gives the input back -/
  rejoinMqtt : 0 ∉ input → bytes "mqtt" <+: input → chr ' ' ∈ input.drop 4 →
    ∀ msg msg', parseMqttTopic strict input msg = some msg' →
      joinMqtt (fieldStr msg' topic) (fieldStr msg' payload) = input
  /-- and so does an HTTP request -/
  rejoinHttp : 0 ∉ input → HttpSpaces input → ∀ msg msg', parseHttpRequest strict input msg = some msg' →
    joinHttp (fieldStr msg' method) (fieldStr msg' path) (fieldStr msg' body) = input

/-- **Where parsing undoes formatting and back.** At every input the law holds iff the
input has a NUL or, as an MQTT line, keeps its topic. -/
theorem round_trip_iff (input : Bytes) : RoundTrips input ↔ (0 ∉ input → TopicKept input) := by
  constructor
  · intro h h0 t p he ht
    subst he
    have hsp : chr ' ' ∈ (joinMqtt t p).drop 4 := by
      rw [joinMqtt, List.append_assoc, List.drop_left' (by rfl)]
      simp
    have hmqtt : bytes "mqtt" <+: joinMqtt t p := ⟨t ++ chr ' ' :: p, by simp [joinMqtt]⟩
    exact (parseMqttTopic_rejoin_iff h0 hmqtt hsp).1 (h.rejoinMqtt h0 hmqtt hsp) t p rfl ht
  · intro h
    refine ⟨?_, ?_, ?_, ?_⟩
    · rintro msg t p rfl ht h0t hlt h0p hlp
      exact parseMqttTopic_join msg ht h0t h0p hlt hlp
    · rintro msg m u b rfl hm h0m hlm hu h0u hlu h0b hlb
      exact parseHttpRequest_join msg hm hu h0m h0u h0b hlm hlu hlb
    · intro h0 hm hsp
      exact (parseMqttTopic_rejoin_iff h0 hm hsp).2 (h h0)
    · intro h0 hsp msg msg' hmsg
      exact parseHttpRequest_rejoin h0 hsp hmsg

/-- An MQTT line with a topic of 2^32 + 3 bytes. -/
def longLine : Bytes := joinMqtt (List.replicate (2 ^ 32 + 3) (chr 'a')) []

/-- Three bytes of the topic are stored, no field overruns, and the line is lost. -/
theorem long_topic_cut : (∃ msg', parseMqttTopic strict longLine (Arr.zeros _) = some msg' ∧
    joinMqtt (fieldStr msg' topic) (fieldStr msg' payload) ≠ longLine) ∧ ¬ RoundTrips longLine := by
  have ht : chr ' ' ∉ List.replicate (2 ^ 32 + 3) (chr 'a') := by
    rw [List.mem_replicate]
    exact fun h => absurd h.2 (by decide)
  have h0 : 0 ∉ longLine := by
    simp only [longLine, joinMqtt, List.mem_append, List.mem_replicate, List.mem_singleton, not_or, not_and]
    exact ⟨⟨by decide, fun _ => by decide⟩, by decide⟩
  have hlen : (List.replicate (2 ^ 32 + 3) (chr 'a')).length = 2 ^ 32 + 3 := List.length_replicate
  obtain ⟨msg', hmsg⟩ := exists_parse (p := []) (Arr.zeros _) ht (by omega) (by simp)
  have hne : joinMqtt (fieldStr msg' topic) (fieldStr msg' payload) ≠ longLine := by
    obtain ⟨-, et, ep⟩ := fields_of_parse ht h0 hmsg
    rw [et, ep]
    intro hjoin
    have hle := joinMqtt_take.1 hjoin
    omega
  refine ⟨⟨msg', hmsg, hne⟩, fun h => hne (h.rejoinMqtt h0 ?_ ?_ _ _ hmsg)⟩
  · exact ⟨List.replicate (2 ^ 32 + 3) (chr 'a') ++ [chr ' '], by rw [longLine, joinMqtt, List.append_assoc]⟩
  · rw [longLine, joinMqtt, List.append_assoc, List.drop_left' (by rfl)]
    exact List.mem_append_right _ (List.mem_singleton_self _)

end EspNetwork.Iot
