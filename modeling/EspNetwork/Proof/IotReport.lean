import EspNetwork.Proof.IotRoundTrip
import EspNetwork.Proof.IotJson

/-!
# The report on a message

The whole program on a formatted message: `main` takes the line apart again, looks its keys
up in the object, and prints what the message says.

* `printJsonValue_objText`: what is printed for a key of a flat object.
* `printMqttAnalysis_eq`, `printHttpAnalysis_eq`: the analysis of what the fields hold.
* `main_reports`: **`main` prints the report of the message**, and nothing else.
-/

namespace EspNetwork.Iot

open CLib

variable {t p m u b : Bytes} {ms : List (Bytes × Val)}

/-- A message with a flat object. -/
inductive Message
  | mqtt (topic : Bytes) (ms : List (Bytes × Val))
  | http (method path : Bytes) (ms : List (Bytes × Val))

/-- The line that is printed for a key: the value of the first member that has it. -/
def reported (ms : List (Bytes × Val)) (key label : String) : Bytes :=
  match ms.find? (·.1 = bytes key) with
  | some m => printfStr label m.2.text
  | none => []

/-- A text for a field of a line: it ends before the next space. -/
def Word (s : Bytes) : Prop := chr ' ' ∉ s ∧ chr '\n' ∉ s ∧ 0 ∉ s

/-- A flat object on one line. -/
structure FlatObject (ms : List (Bytes × Val)) : Prop where
  members : ∀ m ∈ ms, FlatMember m
  oneLine : chr '\n' ∉ objText ms
  length : (objText ms).length ≤ 255

namespace Message

def line : Message → Bytes
  | mqtt t ms => joinMqtt t (objText ms)
  | http m u ms => joinHttp m u (objText ms)

def report : Message → Bytes
  | mqtt t ms =>
    bytes "=== MQTT Message Analysis ===\n" ++ printfStr "Topic: " t ++ printfStr "Payload: " (objText ms) ++
      reported ms "device_id" "Device ID: " ++ reported ms "temperature" "Temperature: " ++
      reported ms "status" "Status: " ++ bytes "\n"
  | http m u ms =>
    bytes "=== HTTP Request Analysis ===\n" ++ printfStr "Method: " m ++ printfStr "Path: " u ++
      printfStr "Body: " (objText ms) ++ reported ms "action" "Action: " ++ reported ms "value" "Value: " ++ bytes "\n"

/-- The fields fit, and the line is read as it was written. -/
def WellFormed : Message → Prop
  | mqtt t ms => Word t ∧ t.length ≤ 63 ∧ FlatObject ms
  | http m u ms =>
    (Word m ∧ m.length ≤ 7 ∧ (bytes "GET" <+: m ∨ bytes "POST" <+: m)) ∧ (Word u ∧ u.length ≤ 63) ∧ FlatObject ms

end Message

/-! ## The object -/

theorem zero_not_mem_memberText {x : Bytes × Val} (hx : FlatMember x) : 0 ∉ memberText x := by
  obtain ⟨k, v⟩ := x
  have hk : 0 ∉ k := hx.key.2.2
  have hv : 0 ∉ v.json := by
    cases v with
    | str s =>
      have hs : 0 ∉ s := hx.2.1.2.2
      simp only [Val.json, List.mem_append, List.mem_singleton, not_or]
      exact ⟨⟨by decide, hs⟩, by decide⟩
    | int n => exact not_mem_printLd (by decide) (by decide) n
  simp only [memberText, keyText, List.mem_append, List.mem_cons, List.not_mem_nil, not_or, or_false]
  exact ⟨⟨⟨by decide, hk⟩, by decide, by decide⟩, hv⟩

theorem zero_not_mem_objText (hms : ∀ m ∈ ms, FlatMember m) : 0 ∉ objText ms := by
  have hmembers : 0 ∉ membersText ms := by
    induction ms with
    | nil => decide
    | cons x ms ih =>
      have hx := zero_not_mem_memberText (hms x List.mem_cons_self)
      have ih := ih fun m hm => hms m (List.mem_cons_of_mem _ hm)
      obtain ⟨c, t, ht, hc⟩ := membersText_cons x ms
      rw [ht, List.mem_append, List.mem_cons]
      rintro (h | h | h)
      · exact hx h
      · rcases hc with ⟨rfl, -⟩ | ⟨rfl, -⟩ <;> revert h <;> decide
      · rcases hc with ⟨-, rfl, -⟩ | ⟨-, rfl⟩
        · exact List.not_mem_nil h
        · exact ih h
  intro h
  have h : 0 ∈ chr '{' :: membersText ms := by simpa [objText, membersText] using h
  rcases List.mem_cons.1 h with h | h
  · revert h; decide
  · exact hmembers h

/-- **The line for a key** of a flat object. -/
theorem printJsonValue_objText (hms : ∀ m ∈ ms, FlatMember m) (key label : String) (hk : QueryKey (bytes key)) :
    printJsonValue (objText ms) key label = some (reported ms key label) := by
  have hkey : searchKey (bytes key) = keyText (bytes key) := searchKey_eq hk.1
  unfold printJsonValue reported
  cases hf : ms.find? (·.1 = bytes key) with
  | none =>
    have hno : ∀ m ∈ ms, m.1 ≠ bytes key := by
      intro m hm
      simpa using List.find?_eq_none.1 hf m hm
    have habs : strstr (objText ms) (searchKey (bytes key)) = none := by
      rw [hkey, strstr_objText, strstr_members_none hk hms hno, Option.map_none]
    rw [extract_absent habs]
    rfl
  | some m =>
    obtain ⟨pos, c, r, hpos, hdrop, hc⟩ := strstr_members hk hms hf
    have hat : ∃ pos, strstr (objText ms) (searchKey (bytes key)) = some pos ∧
        (objText ms).drop (pos + (searchKey (bytes key)).length) = m.2.json ++ c :: r := by
      refine ⟨pos + 1, by rw [hkey, strstr_objText, hpos, Option.map_some], ?_⟩
      rw [hkey, ← hdrop, Nat.add_right_comm]
      rfl
    obtain ⟨value, hv, htext, hne⟩ :=
      extract_member (Arr.zeros MAX_VALUE_SIZE) (hms m (List.mem_of_find?_eq_some hf)) hat hc
    have hne : (m.2.text.length : Int) ≠ 0 := by exact_mod_cast hne
    rw [hv]
    simp only [Option.bind_eq_bind, Option.bind_some, if_pos hne, htext, Option.pure_def]

/-! ## The two analyses -/

theorem queryKey_of_report : ∀ key ∈ ["device_id", "temperature", "status", "action", "value"], QueryKey (bytes key) := by
  intro key hkey
  simp only [List.mem_cons, List.not_mem_nil, or_false] at hkey
  unfold QueryKey Plain
  rcases hkey with rfl | rfl | rfl | rfl | rfl <;> decide

theorem printMqttAnalysis_eq {msg : MqttMessage} (hms : ∀ m ∈ ms, FlatMember m) (ht : fieldStr msg topic = t)
    (hp : fieldStr msg payload = objText ms) : printMqttAnalysis msg = some (Message.mqtt t ms).report := by
  have h1 := printJsonValue_objText hms "device_id" "Device ID: " (queryKey_of_report _ (by decide))
  have h2 := printJsonValue_objText hms "temperature" "Temperature: " (queryKey_of_report _ (by decide))
  have h3 := printJsonValue_objText hms "status" "Status: " (queryKey_of_report _ (by decide))
  unfold printMqttAnalysis
  rw [hp, h1, h2, h3, ht]
  rfl

theorem printHttpAnalysis_eq {msg : HttpMessage} (hms : ∀ m ∈ ms, FlatMember m) (hne : m ≠ [])
    (hm : fieldStr msg method = m) (hu : fieldStr msg path = u) (hb : fieldStr msg body = objText ms) :
    printHttpAnalysis msg = some (Message.http m u ms).report := by
  have herr : errorMsg msg = some [] := errorMsg_of_method (by rwa [hm])
  have h1 := printJsonValue_objText hms "action" "Action: " (queryKey_of_report _ (by decide))
  have h2 := printJsonValue_objText hms "value" "Value: " (queryKey_of_report _ (by decide))
  unfold printHttpAnalysis
  rw [herr, hb, h1, h2, hm, hu]
  simp only [Option.bind_eq_bind, Option.bind_some, Option.pure_def, List.append_nil]
  rfl

/-! ## The program -/

/-- The line of a well-formed message goes to the branch of its kind. -/
theorem dispatch_line {msg : Message} (h : msg.WellFormed) : dispatch strict msg.line = some msg.report := by
  cases msg with
  | mqtt t ms =>
    obtain ⟨⟨ht, -, h0t⟩, hlt, hobj⟩ := h
    obtain ⟨msg, hparse, htopic, hpayload⟩ := parseMqttTopic_join (Arr.zeros _) ht h0t
      (zero_not_mem_objText hobj.members) hlt hobj.length
    have hpre : bytes "mqtt" <+: joinMqtt t (objText ms) := ⟨t ++ chr ' ' :: objText ms, by rw [joinMqtt, List.append_assoc]⟩
    simp only [dispatch, Message.line, List.isPrefixOf_iff_prefix, if_pos hpre, hparse, Option.bind_eq_bind,
      Option.bind_some]
    exact printMqttAnalysis_eq hobj.members htopic hpayload
  | http m u ms =>
    obtain ⟨⟨⟨hm, -, h0m⟩, hlm, hpre⟩, ⟨⟨hu, -, h0u⟩, hlu⟩, hobj⟩ := h
    obtain ⟨msg, hparse, hmethod, hpath, hbody⟩ := parseHttpRequest_join (Arr.zeros _) hm hu h0m h0u
      (zero_not_mem_objText hobj.members) hlm hlu hobj.length
    have hline : bytes "GET" <+: joinHttp m u (objText ms) ∨ bytes "POST" <+: joinHttp m u (objText ms) :=
      hpre.imp (·.trans (List.prefix_append _ _)) (·.trans (List.prefix_append _ _))
    have hnot : ¬ bytes "mqtt" <+: joinHttp m u (objText ms) := by
      rintro ⟨r, hr⟩
      rcases hline with ⟨r', hr'⟩ | ⟨r', hr'⟩
      · exact absurd (List.cons.inj (hr.trans hr'.symm)).1 (by decide)
      · exact absurd (List.cons.inj (hr.trans hr'.symm)).1 (by decide)
    have hne : m ≠ [] := method_ne_nil (r := u ++ chr ' ' :: objText ms) hline
    simp only [dispatch, Message.line, List.isPrefixOf_iff_prefix, if_neg hnot, if_pos hline, hparse,
      Option.bind_eq_bind, Option.bind_some]
    exact printHttpAnalysis_eq hobj.members hne hmethod hpath hbody

/-- The line of a well-formed message is read as it was written. -/
theorem line_read {msg : Message} (h : msg.WellFormed) : 0 ∉ msg.line ∧ chr '\n' ∉ msg.line ∧ msg.line.length ≤ 511 := by
  cases msg with
  | mqtt t ms =>
    obtain ⟨⟨-, hnl, h0⟩, hlt, hobj⟩ := h
    have hobj0 := zero_not_mem_objText hobj.members
    have hlen := hobj.length
    refine ⟨?_, ?_, ?_⟩
    · simp only [Message.line, joinMqtt, List.mem_append, List.mem_cons, not_or]
      exact ⟨⟨by decide, h0⟩, by decide, hobj0⟩
    · simp only [Message.line, joinMqtt, List.mem_append, List.mem_cons, not_or]
      exact ⟨⟨by decide, hnl⟩, by decide, hobj.oneLine⟩
    · simp only [Message.line, joinMqtt, List.length_append, List.length_cons, show (bytes "mqtt").length = 4 from rfl]
      omega
  | http m u ms =>
    obtain ⟨⟨⟨-, hnlm, h0m⟩, hlm, -⟩, ⟨⟨-, hnlu, h0u⟩, hlu⟩, hobj⟩ := h
    have hobj0 := zero_not_mem_objText hobj.members
    have hlen := hobj.length
    refine ⟨?_, ?_, ?_⟩
    · simp only [Message.line, joinHttp, List.mem_append, List.mem_cons, not_or]
      exact ⟨h0m, by decide, h0u, by decide, hobj0⟩
    · simp only [Message.line, joinHttp, List.mem_append, List.mem_cons, not_or]
      exact ⟨hnlm, by decide, hnlu, by decide, hobj.oneLine⟩
    · simp only [Message.line, joinHttp, List.length_append, List.length_cons]
      omega

/-- **The report.** On the line of a well-formed message `main` leaves no field, and it prints
the banner and the report of the message: its topic and payload, or its method, path and
body, and of each key it knows the value of the first member that has it. -/
theorem main_reports (msg : Message) (h : msg.WellFormed) (rest : Bytes) :
    main strict (msg.line ++ chr '\n' :: rest) = some (banner ++ msg.report) := by
  obtain ⟨h0, hnl, hlen⟩ := line_read h
  rw [main_line rest h0 hnl hlen, dispatch_line h, Option.map_some]

/-- `/home` with a status, a temperature and another status. -/
def statusTwice : Message :=
  .mqtt (bytes "/home") [(bytes "status", .str (bytes "ok")), (bytes "temperature", .int (-3)),
    (bytes "status", .str (bytes "off"))]

/-- `main_reports` at `statusTwice`. -/
theorem main_reports_statusTwice : statusTwice.WellFormed ∧
    main strict (bytes "mqtt/home \x7b\"status\":\"ok\",\"temperature\":-3,\"status\":\"off\"\x7d" ++ chr '\n' :: []) =
      some (banner ++ bytes ("=== MQTT Message Analysis ===\nTopic: /home\n" ++
        "Payload: \x7b\"status\":\"ok\",\"temperature\":-3,\"status\":\"off\"\x7d\n" ++
        "Temperature: -3\nStatus: ok\n\n")) := by
  have hplain : ∀ s : Bytes, (s.contains (chr '"') || s.contains (chr '\\') || s.contains 0) = false → Plain s := by
    intro s h
    simpa [Plain, and_assoc] using h
  have hwf : statusTwice.WellFormed := by
    refine ⟨⟨by decide, by decide, by decide⟩, by decide, ?_, by decide, by decide⟩
    intro m hm
    simp only [List.mem_cons, List.not_mem_nil, or_false] at hm
    rcases hm with rfl | rfl | rfl
    · exact ⟨hplain _ (by decide), hplain _ (by decide), by decide, by decide⟩
    · exact ⟨hplain _ (by decide), by decide, by decide⟩
    · exact ⟨hplain _ (by decide), hplain _ (by decide), by decide, by decide⟩
  have hline : statusTwice.line = bytes "mqtt/home \x7b\"status\":\"ok\",\"temperature\":-3,\"status\":\"off\"\x7d" := by
    decide +kernel
  have hreport : statusTwice.report = bytes ("=== MQTT Message Analysis ===\nTopic: /home\n" ++
      "Payload: \x7b\"status\":\"ok\",\"temperature\":-3,\"status\":\"off\"\x7d\n" ++
      "Temperature: -3\nStatus: ok\n\n") := by
    decide +kernel
  refine ⟨hwf, ?_⟩
  rw [← hline, ← hreport]
  exact main_reports statusTwice hwf []

end EspNetwork.Iot
