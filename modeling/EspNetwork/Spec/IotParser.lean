import EspNetwork.Lib.Decimal

/-!
# The IoT message parser (`fuzz-me/sample/iot_parser.c`)

Every store checks its bound: a store that leaves its destination, `printf("%s")`
of `NULL` and a format string with a conversion specification make the run fail
(`none`). A message struct is one region with fields in the order of the source. A
`Limit` says how far from its start a store to a field may reach: to the end of the
field (`strict`), or to the end of the struct (`flat`), as in a build without
bounds checks.
-/

namespace EspNetwork.Iot

open CLib

def MAX_BUFFER_SIZE : Nat := 256

def MAX_TOPIC_SIZE : Nat := 64

def MAX_PATH_SIZE : Nat := 64

def MAX_KEY_SIZE : Nat := 32

def MAX_VALUE_SIZE : Nat := 64

/-- A `char` array inside a struct. -/
structure Field where
  off : Nat
  size : Nat

/-- How many bytes from the start of a field a store may reach. -/
abbrev Limit := Field → Nat

def strict : Limit := Field.size

def flat (n : Nat) : Limit := fun f => n - f.off

/-- `mqtt_message_t` -/
abbrev MqttMessage := Arr (MAX_TOPIC_SIZE + MAX_BUFFER_SIZE)

def topic : Field := ⟨0, MAX_TOPIC_SIZE⟩

def payload : Field := ⟨MAX_TOPIC_SIZE, MAX_BUFFER_SIZE⟩

/-- `http_message_t` -/
abbrev HttpMessage := Arr (8 + MAX_PATH_SIZE + MAX_BUFFER_SIZE)

def method : Field := ⟨0, 8⟩

def path : Field := ⟨8, MAX_PATH_SIZE⟩

def body : Field := ⟨8 + MAX_PATH_SIZE, MAX_BUFFER_SIZE⟩

variable {n : Nat}

/-- A store to a field, `i` bytes from its start. -/
def storeField (lim : Limit) (msg : Arr n) (f : Field) (i : Nat) (bs : Bytes) : Option (Arr n) :=
  if i + bs.length ≤ lim f then msg.store (f.off + i) bs else none

/-- The C string that starts at a field. -/
def fieldStr (msg : Arr n) (f : Field) : Bytes := cstr (msg.data.drop f.off)

/-- `strcpy` into a field. -/
def strcpyField (lim : Limit) (msg : Arr n) (f : Field) (src : Bytes) : Option (Arr n) :=
  storeField lim msg f 0 (src ++ [0])

/-- `strncpy(dst, src, len); dst[len] = '\0'` with an `int` length. A negative length
converts to a `size_t` larger than any array. -/
def strncpyField (lim : Limit) (msg : Arr n) (f : Field) (src : Bytes) (len : Int) : Option (Arr n) :=
  match len with
  | .ofNat k => do
    let msg ← storeField lim msg f 0 (strncpyBytes src k)
    storeField lim msg f k [0]
  | .negSucc _ => none

/-- `parse_mqtt_topic`: the input starts with `mqtt` (`main` checks it). -/
def parseMqttTopic (lim : Limit) (input : Bytes) (msg : MqttMessage) : Option MqttMessage :=
  match strchr (input.drop 4) (chr ' ') with
  | none => some msg
  | some k => do
    let topicLen := toInt k
    let msg ← strncpyField lim msg topic (input.drop 4) topicLen
    strcpyField lim msg payload (input.drop (4 + k + 1))

/-- `search_key`, as `snprintf` cuts it to its array. -/
def searchKey (key : Bytes) : Bytes :=
  ([chr '"'] ++ key ++ [chr '"', chr ':']).take (MAX_KEY_SIZE + 4 - 1)

/-- `extract_json_value`: the return value and the array `value` afterwards. -/
def extractJsonValue (json key : Bytes) (value : Arr n) : Option (Int × Arr n) :=
  match strstr json (searchKey key) with
  | none => some (0, value)
  | some keyPos =>
    let valueStart := (json.drop (keyPos + (searchKey key).length)).dropWhile isspace
    if valueStart.head? = some (chr '"') then
      match strchr valueStart.tail (chr '"') with
      | none => some (0, value)
      | some valueEnd => do
        let len := toInt valueEnd
        let value ← strncpyField strict value ⟨0, n⟩ valueStart.tail len
        return (len, value)
    else do
      let (num, endPtr) := strtol valueStart
      let value ← value.store 0 (printLd num ++ [0])
      return (toInt endPtr, value)

/-- `parse_http_request`; `input_copy` is cut at its first two spaces. -/
def parseHttpRequest (lim : Limit) (input : Bytes) (msg : HttpMessage) : Option HttpMessage :=
  match strchr input (chr ' ') with
  | none => some msg
  | some methodEnd => do
    let msg ← strcpyField lim msg method (input.take methodEnd)
    let pathStart := input.drop (methodEnd + 1)
    match strchr pathStart (chr ' ') with
    | none => some msg
    | some pathEnd => do
      let msg ← strcpyField lim msg path (pathStart.take pathEnd)
      strcpyField lim msg body (pathStart.drop (pathEnd + 1))

/-- `printf("<label>%s\n", s)` -/
def printfStr (label : String) (s : Bytes) : Bytes := bytes label ++ s ++ bytes "\n"

/-- `printf(fmt)`: a conversion specification has no argument to convert. -/
def printfFormat (fmt : Bytes) : Option Bytes := if chr '%' ∈ fmt then none else some fmt

/-- `if (extract_json_value(json, key, value)) printf(...)`, with a fresh zeroed `value`. -/
def printJsonValue (json : Bytes) (key label : String) : Option Bytes := do
  let (found, value) ← extractJsonValue json (bytes key) (Arr.zeros MAX_VALUE_SIZE)
  return if found ≠ 0 then printfStr label (cstr value.data) else []

/-- `print_mqtt_analysis` -/
def printMqttAnalysis (msg : MqttMessage) : Option Bytes := do
  let deviceId ← printJsonValue (fieldStr msg payload) "device_id" "Device ID: "
  let temperature ← printJsonValue (fieldStr msg payload) "temperature" "Temperature: "
  let status ← printJsonValue (fieldStr msg payload) "status" "Status: "
  return bytes "=== MQTT Message Analysis ===\n" ++ printfStr "Topic: " (fieldStr msg topic) ++
    printfStr "Payload: " (fieldStr msg payload) ++ deviceId ++ temperature ++ status ++ bytes "\n"

/-- The text `sprintf` writes to `error_msg`. -/
def warning (path : Bytes) : Bytes := bytes "Warning: Empty method in request: " ++ path

/-- `error_msg` of `print_http_analysis`, which is also the format of its `printf`. -/
def errorMsg (msg : HttpMessage) : Option Bytes := do
  if fieldStr msg method = [] then
    let errorMsg ← (default : Arr 100).store 0 (warning (fieldStr msg path) ++ [0])
    printfFormat (cstr errorMsg.data)
  else return []

/-- `print_http_analysis` -/
def printHttpAnalysis (msg : HttpMessage) : Option Bytes := do
  let error ← errorMsg msg
  let action ← printJsonValue (fieldStr msg body) "action" "Action: "
  let value ← printJsonValue (fieldStr msg body) "value" "Value: "
  return bytes "=== HTTP Request Analysis ===\n" ++ printfStr "Method: " (fieldStr msg method) ++
    printfStr "Path: " (fieldStr msg path) ++ printfStr "Body: " (fieldStr msg body) ++ error ++
    action ++ value ++ bytes "\n"

/-- `fgets(buf, size, stdin)`: up to and including the first newline. -/
def fgets (stdin : Bytes) (size : Nat) : Option Bytes :=
  if stdin = [] then none
  else
    let line := stdin.takeWhile (· ≠ chr '\n')
    some ((stdin.take (line.length + 1)).take (size - 1))

/-- The `else` branch of `main`. -/
def printUnknown (input : Bytes) : Option Bytes := do
  let unknownFormat : Option Bytes ←
    if input.length > 10 then do
      let buf ← (default : Arr 20).store 0 (bytes "Unknown format" ++ [0])
      some (some (cstr buf.data))
    else some none
  -- `printf("%s", NULL)`
  let text ← unknownFormat
  return printfStr "Error: " text

/-- The dispatch of `main` on the line it read. -/
def dispatch (lim : Limit) (input : Bytes) : Option Bytes :=
  if (bytes "mqtt").isPrefixOf input then do
    let msg ← parseMqttTopic lim input (Arr.zeros _)
    printMqttAnalysis msg
  else if (bytes "GET").isPrefixOf input ∨ (bytes "POST").isPrefixOf input then do
    let msg ← parseHttpRequest lim input (Arr.zeros _)
    printHttpAnalysis msg
  else printUnknown input

def banner : Bytes :=
  bytes "IoT Network Message Parser\n" ++
  bytes "Supported formats:\n" ++
  bytes "  MQTT: mqtt/topic/path \x7b\"key\":\"value\"\x7d\n" ++
  bytes "  HTTP: GET /path \x7b\"key\":\"value\"\x7d\n" ++
  bytes "  HTTP: POST /path \x7b\"key\":\"value\"\x7d\n" ++
  bytes "Enter message: "

/-- `main`: what it prints on a given standard input, or `none` if the run fails. -/
def main (lim : Limit) (stdin : Bytes) : Option Bytes := do
  match fgets stdin (MAX_BUFFER_SIZE * 2) with
  | none => return banner
  | some input =>
    let out ← dispatch lim ((cstr input).takeWhile (· ≠ chr '\n'))
    return banner ++ out

end EspNetwork.Iot
