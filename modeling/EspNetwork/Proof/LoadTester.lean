import EspNetwork.Spec.LoadTester

/-!
# When the summary of the load tester completes

Every partial operation of `print_summary` is evaluated only where it is defined, except
`statistics.stdev`, which is reached with a single successful result.

* `successfulConnections_returns`, `timingPattern_returns`, `performanceAnalysis_returns`:
  the blocks of `print_summary`.
* `successfulConnections_raises`: the block with one successful result.
* `summarised_iff`: **the summary is printed to its end, with counts that add up, iff the
  number of clients with a valid response is not one.**
-/

namespace EspNetwork.LoadTest

open CLib Script

/-! ## The operations -/

section Operations

variable {F : Type} {stat : Statistics F} {xs : List F}

/-- `statistics.mean` needs a sample. -/
theorem mean_returns (h : 1 ≤ xs.length) : Returns (mean stat xs) fun _ => True := by
  rw [mean, if_neg (not_lt.2 h)]
  exact returns_pure trivial

/-- `statistics.stdev` needs two. -/
theorem stdev_returns (h : 2 ≤ xs.length) : Returns (stdev stat xs) fun _ => True := by
  rw [stdev, if_neg (not_lt.2 h)]
  exact returns_pure trivial

/-- With fewer it raises. -/
theorem stdev_raises (h : xs.length < 2) : Raises (stdev stat xs) .statisticsError := by
  rw [stdev, if_pos h]
  exact raises_throw

theorem minimum_returns [LinearOrder F] (h : xs ≠ []) : Returns (minimum xs) fun _ => True := by
  obtain ⟨x, hx⟩ := Option.isSome_iff_exists.1 (List.isSome_min?_of_ne_nil h)
  rw [minimum, hx]
  exact returns_pure trivial

theorem maximum_returns [LinearOrder F] (h : xs ≠ []) : Returns (maximum xs) fun _ => True := by
  obtain ⟨x, hx⟩ := Option.isSome_iff_exists.1 (List.isSome_max?_of_ne_nil h)
  rw [maximum, hx]
  exact returns_pure trivial

theorem divFloat_returns [LinearOrder F] [Zero F] [Div F] [NatCast F] {n : ℕ} {d : F} (h : d ≠ 0) :
    Returns (divFloat n d) fun _ => True := by
  rw [divFloat, if_neg h]
  exact returns_pure trivial

theorem divInt_returns [Div F] [NatCast F] {n : ℕ} {d : F} (h : n ≠ 0) : Returns (divInt d n) fun _ => True := by
  rw [divInt, if_neg h]
  exact returns_pure trivial

theorem item_returns {i : ℕ} (h : i < xs.length) : Returns (item xs i) fun _ => True := by
  rw [item, List.getElem?_eq_getElem h]
  exact returns_pure trivial

end Operations

/-! ## The blocks of `print_summary` -/

theorem failedConnections_returns {F : Type} {failed : List (Result F)} :
    Returns (failedConnections failed) fun _ => True := by
  unfold failedConnections
  split_ifs
  · exact returns_pure trivial
  · apply Returns.print_bind
    apply returns_forM
    intro r _
    exact returns_print

variable {F : Type} [LinearOrder F]

/-- The indices of the loop are below the number of durations. -/
theorem timingPattern_returns [Sub F] (durations : List F) : Returns (timingPattern (some durations)) fun _ => True := by
  apply Returns.print_bind
  apply returns_forM
  intro i hi
  have hlt : i < (durations.mergeSort (· ≤ ·)).length := by
    obtain ⟨hi1, hi⟩ := List.mem_range'_1.1 hi
    omega
  apply (item_returns hlt).bind
  intro _ _
  apply (item_returns (lt_of_le_of_lt (Nat.sub_le i 1) hlt)).bind
  intro _ _
  exact returns_print

variable [Div F] [NatCast F] {totalDuration : F} {successful : List (Result F)}

/-- `durations` is read only when it has been assigned. -/
theorem performanceAnalysis_returns [Sub F] {durations : Option (List F)}
    (h : 2 ≤ successful.length → durations = some (successful.map (·.duration))) :
    Returns (performanceAnalysis successful durations totalDuration) fun _ => True := by
  unfold performanceAnalysis
  split
  · rename_i hlen
    apply Returns.print_bind
    apply Returns.print_bind
    apply Returns.print_value (divInt_returns (by omega))
    split
    · rw [h hlen]
      exact timingPattern_returns _
    · exact returns_pure trivial
  · exact returns_pure trivial

variable [Zero F] {stat : Statistics F}

/-- With two successful results or more every operation of the block is defined. -/
theorem successfulConnections_returns (h : 2 ≤ successful.length) (hd : totalDuration ≠ 0) :
    Returns (successfulConnections stat successful totalDuration) fun durations =>
      durations = some (successful.map (·.duration)) := by
  have hne : successful ≠ [] := List.ne_nil_of_length_pos (by omega)
  have htwo : ∀ f : Result F → F, 2 ≤ (successful.map f).length := fun f => by rwa [List.length_map]
  have hone : ∀ f : Result F → F, 1 ≤ (successful.map f).length := fun f => le_trans (by decide) (htwo f)
  have hnil : successful.map (·.duration) ≠ [] := by simpa using hne
  rw [successfulConnections, if_neg hne]
  apply Returns.print_bind
  apply Returns.print_bind
  apply Returns.print_value (mean_returns (hone _))
  apply Returns.print_value (minimum_returns hnil)
  apply Returns.print_value (maximum_returns hnil)
  apply Returns.print_value (stdev_returns (htwo _))
  apply Returns.print_value (mean_returns (hone _))
  apply Returns.print_value (divFloat_returns hd)
  exact returns_pure rfl

/-- With one successful result the block ends at the standard deviation. -/
theorem successfulConnections_raises (h : successful.length = 1) :
    Raises (successfulConnections stat successful totalDuration) .statisticsError := by
  have hne : successful ≠ [] := List.ne_nil_of_length_pos (by omega)
  have hlen : (successful.map (·.duration)).length = 1 := by rw [List.length_map, h]
  have hnil : successful.map (·.duration) ≠ [] := by simpa using hne
  rw [successfulConnections, if_neg hne]
  apply Raises.print_bind
  apply Raises.print_bind
  apply Raises.print_value (mean_returns hlen.ge)
  apply Raises.print_value (minimum_returns hnil)
  apply Raises.print_value (maximum_returns hnil)
  apply (stdev_raises _).bind
  rw [hlen]
  decide

/-! ## The summary -/

/-- The summary is printed to its end, and its counts add up to the number of results. -/
def Summarised [Sub F] (stat : Statistics F) (results : List (Result F)) (totalDuration : F) : Prop :=
  ∃ ok bad rest, (printSummary stat results totalDuration).exec [] =
    (.ok (), [.rule, .title, .rule, .totalClients results.length, .successful ok, .failed bad] ++ rest) ∧
    ok + bad = results.length

/-- A client got a valid response. -/
def Session.valid : Session F → Bool
  | .raised _ => false
  | .ended chunks _ _ => isValid chunks.flatten

/-- A client succeeds on a valid session. -/
theorem testSingleClient_success [Sub F] (clientId : ℕ) (s : Session F) : (testSingleClient clientId s).success = s.valid := by
  cases s with
  | raised e => rfl
  | ended chunks startTime endTime => rfl

variable [Sub F] {results : List (Result F)}

/-- The blocks behind the counts. -/
theorem blocks_return (h : successful.length ≠ 1) (hd : totalDuration ≠ 0) (failed : List (Result F)) :
    Returns (do
      let durations ← successfulConnections stat successful totalDuration
      failedConnections failed
      performanceAnalysis successful durations totalDuration) fun _ => True := by
  have hdur : Returns (successfulConnections stat successful totalDuration) fun durations =>
      2 ≤ successful.length → durations = some (successful.map (·.duration)) := by
    rcases Nat.lt_or_ge successful.length 2 with hlt | hge
    · have hnil : successful = [] := List.length_eq_zero_iff.1 (by omega)
      rw [successfulConnections, if_pos hnil]
      exact returns_pure fun h2 => absurd h2 (not_le.2 hlt)
    · exact (successfulConnections_returns hge hd).mono fun _ h _ => h
  apply hdur.bind
  intro durations hdurations
  apply failedConnections_returns.bind
  intro _ _
  exact performanceAnalysis_returns hdurations

/-- The counts add up since every result is in one of the two lists. -/
theorem printSummary_returns (h : (results.filter fun r => r.success).length ≠ 1) (hd : totalDuration ≠ 0) :
    Summarised stat results totalDuration := by
  unfold Summarised printSummary
  simp only [exec_print_bind]
  obtain ⟨⟨⟩, more, he, -⟩ := blocks_return h hd (results.filter fun r => !r.success) _
  exact ⟨_, _, _ :: more, he, (List.length_eq_length_filter_add _).symm⟩

/-- **A single success** makes the summary raise. -/
theorem printSummary_raises (h : (results.filter fun r => r.success).length = 1) :
    Raises (printSummary stat results totalDuration) .statisticsError := by
  unfold printSummary
  repeat apply Raises.print_bind
  exact (successfulConnections_raises h).bind

theorem not_summarised (h : (results.filter fun r => r.success).length = 1) : ¬ Summarised stat results totalDuration := by
  rintro ⟨ok, bad, rest, he, -⟩
  obtain ⟨more, hr⟩ := printSummary_raises (F := F) h []
  rw [he] at hr
  cases (Prod.mk.inj hr).1

/-- **The summary is printed to its end iff the number of clients with a valid response is
not one.** -/
theorem summarised_iff (stat : Statistics F) (clients : List (ℕ × Session F)) (h : 0 < totalDuration) :
    Summarised stat (clients.map fun c => testSingleClient c.1 c.2) totalDuration ↔
      clients.countP (fun c => c.2.valid) ≠ 1 := by
  have hcount : ((clients.map fun c => testSingleClient c.1 c.2).filter fun r => r.success).length =
      clients.countP (fun c => c.2.valid) := by
    rw [← List.countP_eq_length_filter, List.countP_map]
    congr 1
    funext c
    exact testSingleClient_success c.1 c.2
  constructor
  · intro hs hone
    exact not_summarised (hcount.trans hone) hs
  · intro hne
    exact printSummary_returns (by rwa [hcount]) h.ne'

/-- `statistics` on rationals, exact where the variance is a square. -/
def statisticsRat : Statistics ℚ where
  mean data := data.sum / data.length
  stdev data :=
    let m := data.sum / data.length
    Rat.sqrt ((data.map fun x => (x - m) ^ 2).sum / (data.length - 1))

/-- A valid response. -/
def response : Bytes := bytes "HTTP/1.1 200 OK\r\nContent-Length: 2\r\n\r\nOK"

/-- Three clients that are answered after one, two and three seconds, and one that is refused. -/
theorem summarised_iff_four : Summarised statisticsRat
    ([(0, .ended [response] 0 1), (1, .ended [response] 0 2), (2, .raised "Connection refused"),
      (3, .ended [response] 0 3)].map fun c => testSingleClient c.1 c.2) 3 :=
  (summarised_iff statisticsRat _ (by norm_num)).2 (by decide)

/-- One client, which is answered. -/
theorem single_success : Raises (printSummary statisticsRat ([(0, .ended [response] 0 1)].map fun c =>
      testSingleClient c.1 c.2) 1) .statisticsError ∧
    ¬ Summarised statisticsRat ([(0, .ended [response] 0 1)].map fun c => testSingleClient c.1 c.2) 1 := by
  have hone : (([(0, .ended [response] 0 1)].map fun c => testSingleClient c.1 c.2 : List (Result ℚ)).filter fun r =>
      r.success).length = 1 := by decide
  exact ⟨printSummary_raises hone, not_summarised hone⟩

end EspNetwork.LoadTest
