import EspNetwork.Lib.Bytes
import EspNetwork.Lib.Script

/-!
# The load tester (`async-server/server/test_server.py`)

What `test_single_client` appends to `results`, and `print_summary`, which prints and may
raise. Floats are an ordered type with whatever arithmetic (times are never NaN);
`statistics.mean` and `statistics.stdev` compute whatever they compute on the lists they
accept.
-/

namespace EspNetwork.LoadTest

open CLib Script

/-- What `print_summary` may raise. -/
inductive Exception
  | statisticsError
  | valueError
  | zeroDivisionError
  | indexError
  | unboundLocalError
deriving DecidableEq, Repr

/-- An entry of `results`. -/
structure Result (F : Type) where
  clientId : ℕ
  duration : F
  totalBytes : ℕ
  chunksReceived : ℕ
  throughputBps : F
  success : Bool
  /-- the bytes that are decoded -/
  responsePreview : Option Bytes
  error : Option String

/-- What a client of `test_single_client` sees. -/
inductive Session (F : Type)
  /-- an exception other than a timeout of `recv` -/
  | raised (e : String)
  /-- the chunks up to the end of the stream or a timeout, and the times before and after -/
  | ended (chunks : List Bytes) (startTime endTime : F)

/-- A line of the summary. -/
inductive Line (F : Type)
  | rule
  | title
  | totalClients (n : ℕ)
  | successful (n : ℕ)
  | failed (n : ℕ)
  | totalTestDuration (d : F)
  | successfulConnections
  | totalDataReceived (n : ℕ)
  | averageDuration (d : F)
  | minDuration (d : F)
  | maxDuration (d : F)
  | durationStdDev (d : F)
  | averageThroughput (d : F)
  | overallThroughput (d : F)
  | failedConnections
  | failedClient (clientId : ℕ) (errorMsg : String)
  | performanceAnalysis
  | clientsHandled (n : ℕ)
  | averageTimePerClient (d : F)
  | timingPatternAnalysis
  | difference (i : ℕ) (diff : F)
deriving DecidableEq

/-- The functions of `statistics`, on the lists they accept. -/
structure Statistics (F : Type) where
  mean : List F → F
  stdev : List F → F

variable {F : Type} [LinearOrder F] [Zero F] [Sub F] [Div F] [NatCast F]

/-! ## `test_single_client` -/

/-- `response.startswith(b"HTTP/1.1 200") and b"Content-Length:" in response` -/
def isValid (response : Bytes) : Bool := bytes "HTTP/1.1 200" <+: response ∧ bytes "Content-Length:" <:+: response

/-- `test_single_client` -/
def testSingleClient (clientId : ℕ) : Session F → Result F
  | .raised e => ⟨clientId, 0, 0, 0, 0, false, none, some e⟩
  | .ended chunks startTime endTime =>
    let response := chunks.flatten
    let totalBytes := (chunks.map List.length).sum
    let duration := endTime - startTime
    let throughput := if 0 < duration then (totalBytes : F) / duration else 0
    ⟨clientId, duration, totalBytes, chunks.length, throughput, isValid response, some (response.take 100), none⟩

/-! ## Operations that may raise -/

/-- A summary in the making. -/
abbrev Summary (F : Type) := Script Exception (Line F)

/-- `statistics.mean` -/
def mean (stat : Statistics F) (data : List F) : Summary F F :=
  if data.length < 1 then throw .statisticsError else pure (stat.mean data)

/-- `statistics.stdev` -/
def stdev (stat : Statistics F) (data : List F) : Summary F F :=
  if data.length < 2 then throw .statisticsError else pure (stat.stdev data)

/-- `min(..)` -/
def minimum (xs : List F) : Summary F F :=
  match xs.min? with
  | none => throw .valueError
  | some x => pure x

/-- `max(..)` -/
def maximum (xs : List F) : Summary F F :=
  match xs.max? with
  | none => throw .valueError
  | some x => pure x

/-- `n / d`, of an `int` and a `float` -/
def divFloat (n : ℕ) (d : F) : Summary F F := if d = 0 then throw .zeroDivisionError else pure (n / d)

/-- `d / n`, of a `float` and an `int` -/
def divInt (d : F) (n : ℕ) : Summary F F := if n = 0 then throw .zeroDivisionError else pure (d / n)

/-- `xs[i]` -/
def item (xs : List F) (i : ℕ) : Summary F F :=
  match xs[i]? with
  | none => throw .indexError
  | some x => pure x

/-! ## `print_summary` -/

/-- `if successful:`; `durations` is assigned in this block only. -/
def successfulConnections (stat : Statistics F) (successful : List (Result F)) (totalDuration : F) :
    Summary F (Option (List F)) :=
  if successful = [] then pure none
  else do
    let durations := successful.map (·.duration)
    let throughputs := successful.map (·.throughputBps)
    let totalBytes := (successful.map (·.totalBytes)).sum
    print .successfulConnections
    print (.totalDataReceived totalBytes)
    print (.averageDuration (← mean stat durations))
    print (.minDuration (← minimum durations))
    print (.maxDuration (← maximum durations))
    print (.durationStdDev (← stdev stat durations))
    print (.averageThroughput (← mean stat throughputs))
    print (.overallThroughput (← divFloat totalBytes totalDuration))
    return some durations

/-- `if failed:` -/
def failedConnections (failed : List (Result F)) : Summary F Unit :=
  if failed = [] then pure ()
  else do
    print .failedConnections
    forM failed fun r => print (.failedClient r.clientId (r.error.getD "Unknown error"))

/-- "Check for timing patterns" -/
def timingPattern (durations : Option (List F)) : Summary F Unit :=
  match durations with
  | none => throw .unboundLocalError
  | some durations => do
    let sortedDurations := durations.mergeSort (· ≤ ·)
    print .timingPatternAnalysis
    forM (List.range' 1 (min 4 sortedDurations.length - 1)) fun i => do
      let diff := (← item sortedDurations i) - (← item sortedDurations (i - 1))
      print (.difference i diff)

/-- "Performance analysis" -/
def performanceAnalysis (successful : List (Result F)) (durations : Option (List F)) (totalDuration : F) : Summary F Unit :=
  if successful.length > 1 then do
    print .performanceAnalysis
    print (.clientsHandled successful.length)
    print (.averageTimePerClient (← divInt totalDuration successful.length))
    if successful.length ≥ 3 then timingPattern durations
  else pure ()

/-- `print_summary` -/
def printSummary (stat : Statistics F) (results : List (Result F)) (totalDuration : F) : Summary F Unit := do
  print .rule
  print .title
  print .rule
  let successful := results.filter fun r => r.success
  let failed := results.filter fun r => !r.success
  print (.totalClients results.length)
  print (.successful successful.length)
  print (.failed failed.length)
  print (.totalTestDuration totalDuration)
  let durations ← successfulConnections stat successful totalDuration
  failedConnections failed
  performanceAnalysis successful durations totalDuration

end EspNetwork.LoadTest
