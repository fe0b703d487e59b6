import EspNetwork.Spec.IotParser

/-!
# The fuzz tests of the parser (`fuzz-me/fuzztest/iot_parser_fuzztest.cc`)

Each test with its generated arguments: `none` where a read or a store leaves its array, else
whether its expectations hold. A `std::string` may hold NULs; `c_str()` ends at the first.

* `parse_mqtt_topic` reads its argument from the fifth byte on, so that `mqttArg` keeps the
  four bytes before. A string with fewer has no fifth.
* `InDomain` is what `WithDomains` generates.
-/

namespace EspNetwork.Iot

open CLib

/-- A test with its arguments. -/
inductive FuzzCase
  | mqttTopicParsing (input : Bytes)
  | jsonExtraction (json key : Bytes)
  | httpRequestParsing (input : Bytes)
  | mqttStructured (topic payload : Bytes)
  | jsonKeyValue (pre key value suf : Bytes)
  | httpMethodPath (method path body : Bytes)
  | edgeCases (inputType : ℕ) (data : Bytes)

/-- The bytes of a string that `parse_mqtt_topic` looks at. -/
def mqttArg (s : Bytes) : Option Bytes := if 4 ≤ s.length then some (s.take 4 ++ cstr (s.drop 4)) else none

/-- `parse_mqtt_topic(input.c_str(), &msg)` and the expectations on both fields. -/
def expectMqtt (input : Bytes) : Option Bool := do
  let arg ← mqttArg input
  let msg ← parseMqttTopic strict arg (Arr.zeros _)
  return (fieldStr msg topic).length ≤ MAX_TOPIC_SIZE - 1 && (fieldStr msg payload).length ≤ MAX_BUFFER_SIZE - 1

/-- `parse_http_request(input.c_str(), &msg)` and the expectations on the three fields. -/
def expectHttp (input : Bytes) : Option Bool := do
  let msg ← parseHttpRequest strict (cstr input) (Arr.zeros _)
  return (fieldStr msg method).length ≤ method.size - 1 && (fieldStr msg path).length ≤ MAX_PATH_SIZE - 1 &&
    (fieldStr msg body).length ≤ MAX_BUFFER_SIZE - 1

namespace FuzzCase

def fuzzMqttTopicParsing (input : Bytes) : Option Bool :=
  if input.length < 4 then some true else expectMqtt input

def fuzzJsonExtraction (json key : Bytes) : Option Bool :=
  if json = [] ∨ key = [] ∨ json.length > 1000 ∨ key.length > 30 then some true
  else do
    let (result, value) ← extractJsonValue (cstr json) (cstr key) (Arr.zeros MAX_VALUE_SIZE)
    return decide (0 ≤ result) && (decide (result ≤ 0) || decide ((cstr value.data).length ≤ MAX_VALUE_SIZE - 1))

def fuzzHttpRequestParsing (input : Bytes) : Option Bool :=
  if input = [] ∨ input.length > 1000 then some true else expectHttp input

def fuzzMqttStructured (topic payload : Bytes) : Option Bool :=
  if topic = [] ∨ payload = [] then some true
  else
    let mqttInput := bytes "mqtt" ++ topic ++ [chr ' '] ++ payload
    if mqttInput.length > 1000 then some true else expectMqtt mqttInput

def fuzzJsonKeyValue (pre key value suf : Bytes) : Option Bool :=
  if key = [] ∨ key.length > 20 then some true
  else
    let json := pre ++ [chr '"'] ++ key ++ [chr '"', chr ':', chr '"'] ++ value ++ [chr '"'] ++ suf
    if json.length > 800 then some true
    else do
      let (result, extracted) ← extractJsonValue (cstr json) (cstr key) (Arr.zeros MAX_VALUE_SIZE)
      return decide (result ≤ 0) || (decide ((cstr extracted.data).length ≤ MAX_VALUE_SIZE - 1) &&
        decide (0 < (cstr extracted.data).length))

def fuzzHttpMethodPath (method path body : Bytes) : Option Bool :=
  if method = [] ∨ path = [] then some true
  else
    let httpRequest := method ++ [chr ' '] ++ path ++ [chr ' '] ++ body
    if httpRequest.length > 800 then some true else expectHttp httpRequest

/-- The arguments of a call without expectations. -/
def fuzzEdgeCases (inputType : ℕ) (data : Bytes) : Option Bool :=
  if data.length > 500 then some true
  else if inputType % 3 = 0 then do
    let arg ← mqttArg data
    let _ ← parseMqttTopic strict arg (Arr.zeros _)
    return true
  else if inputType % 3 = 1 then do
    let _ ← extractJsonValue (cstr data) (bytes "test") (Arr.zeros MAX_VALUE_SIZE)
    return true
  else do
    let _ ← parseHttpRequest strict (cstr data) (Arr.zeros _)
    return true

def run : FuzzCase → Option Bool
  | mqttTopicParsing input => fuzzMqttTopicParsing input
  | jsonExtraction json key => fuzzJsonExtraction json key
  | httpRequestParsing input => fuzzHttpRequestParsing input
  | mqttStructured topic payload => fuzzMqttStructured topic payload
  | jsonKeyValue pre key value suf => fuzzJsonKeyValue pre key value suf
  | httpMethodPath method path body => fuzzHttpMethodPath method path body
  | edgeCases inputType data => fuzzEdgeCases inputType data

def InDomain : FuzzCase → Prop
  | mqttTopicParsing input => 4 ≤ input.length ∧ input.length ≤ 512
  | jsonExtraction json key => json.length ≤ 500 ∧ key.length ≤ 30
  | httpRequestParsing input => input.length ≤ 512
  | mqttStructured topic payload => topic.length ≤ 100 ∧ payload.length ≤ 200
  | jsonKeyValue pre key value suf => pre.length ≤ 50 ∧ key.length ≤ 20 ∧ value.length ≤ 50 ∧ suf.length ≤ 50
  | httpMethodPath method path body => method.length ≤ 10 ∧ path.length ≤ 60 ∧ body.length ≤ 200
  | edgeCases inputType data => inputType ≤ 1000 ∧ data.length ≤ 300

end FuzzCase

end EspNetwork.Iot
