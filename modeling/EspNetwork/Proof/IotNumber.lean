import EspNetwork.Proof.IotExtract

/-!
# Numbers as values

`extract_json_value` reads a number with `strtol` and prints it with `"%ld"`. `strtol`
stops at a decimal point and clamps to the range of `long`.

* `extract_jsonNumber`: what is stored and returned for any number without exponent.
* `reported_iff`: **a number is reported faithfully iff it has no fraction and fits in a
  `long`**, of any length and magnitude.
-/

namespace EspNetwork.Iot

open CLib

variable {n : Nat} {json key rest : Bytes} {value : Arr n}

/-- A JSON number without exponent. -/
structure JsonNumber where
  neg : Bool
  int : Bytes
  /-- the digits after the decimal point, if there is one -/
  frac : Option Bytes
  int_ne : int ≠ []
  int_digits : ∀ b ∈ int, isdigit b = true
  frac_ne : ∀ fs ∈ frac, fs ≠ []
  frac_digits : ∀ fs ∈ frac, ∀ b ∈ fs, isdigit b = true

namespace JsonNumber

variable {x : JsonNumber}

/-- Sign and digits up to the decimal point. -/
def intText (x : JsonNumber) : Bytes := if x.neg then chr '-' :: x.int else x.int

def fracText (x : JsonNumber) : Bytes := x.frac.elim [] fun fs => chr '.' :: fs

def text (x : JsonNumber) : Bytes := x.intText ++ x.fracText

/-- The number the digits before the decimal point denote, with the sign. -/
def intVal (x : JsonNumber) : ℤ := if x.neg then -digitsVal x.int else digitsVal x.int

end JsonNumber

/-- The number a decimal text denotes. -/
def textVal (s : Bytes) : ℚ :=
  let t := if s.head? = some (chr '-') then s.tail else s
  let fs := (t.dropWhile isdigit).tail
  let v : ℚ := digitsVal (t.takeWhile isdigit) + digitsVal fs / 10 ^ fs.length
  if s.head? = some (chr '-') then -v else v

/-- The text stored denotes the number, and its length is returned. -/
def Reported (json key : Bytes) (value : Arr n) (x : JsonNumber) : Prop :=
  ∃ out, extractJsonValue json key value = some ((x.text.length : ℤ), out) ∧ textVal (cstr out.data) = textVal x.text

/-! ## What a text denotes -/

/-- Digits with their sign, and what comes behind them. -/
theorem textVal_append (neg : Bool) {ds u : Bytes} (hne : ds ≠ []) (hd : ∀ b ∈ ds, isdigit b = true)
    (hu : ∀ b ∈ u.head?, isdigit b = false) : textVal ((if neg then chr '-' :: ds else ds) ++ u) =
      (if neg then -1 else 1) * (digitsVal ds + digitsVal u.tail / 10 ^ u.tail.length) := by
  have htake : (ds ++ u).takeWhile isdigit = ds := takeWhile_isdigit hd hu
  have hdrop : (ds ++ u).dropWhile isdigit = u := by
    have h := List.takeWhile_append_dropWhile (p := isdigit) (l := ds ++ u)
    rw [htake] at h
    exact List.append_cancel_left h
  cases neg with
  | true =>
    simp only [if_true, textVal, List.cons_append, List.head?_cons, List.tail_cons, htake, hdrop]
    ring
  | false =>
    have hhead : (ds ++ u).head? ≠ some (chr '-') := by
      obtain ⟨d, ds, rfl⟩ := List.exists_cons_of_ne_nil hne
      intro h
      obtain rfl : d = chr '-' := Option.some.inj h
      exact absurd (hd _ List.mem_cons_self) (by decide)
    simp only [Bool.false_eq_true, if_false]
    unfold textVal
    rw [if_neg hhead, if_neg hhead, htake, hdrop]
    ring

/-- Without a decimal point it is the integer. -/
theorem textVal_digits (neg : Bool) {ds : Bytes} (hne : ds ≠ []) (hd : ∀ b ∈ ds, isdigit b = true) :
    textVal (if neg then chr '-' :: ds else ds) = ((if neg then -digitsVal ds else digitsVal ds : ℤ) : ℚ) := by
  have h := textVal_append neg hne hd (u := []) nofun
  have h0 : digitsVal [] = 0 := rfl
  rw [List.append_nil, List.tail_nil, h0] at h
  rw [h]
  cases neg <;> simp

theorem textVal_printLd (z : ℤ) : textVal (printLd z) = z := by
  have hd := fun b (hb : b ∈ decimal z.natAbs) => isdigit_of_mem_decimal hb
  have h := textVal_digits (decide (z < 0)) (decimal_ne_nil z.natAbs) hd
  have hchr : chr '-' = 45 := by decide
  have hv : (if z < 0 then -(z.natAbs : ℤ) else z.natAbs) = z := by split <;> omega
  rw [digitsVal_decimal, hchr] at h
  simp only [decide_eq_true_eq, hv] at h
  exact h

namespace JsonNumber

/-- What follows the digits before the decimal point is no digit. -/
theorem fracText_head (x : JsonNumber) {u : Bytes} (hu : ∀ b ∈ u.head?, isdigit b = false) :
    ∀ b ∈ (x.fracText ++ u).head?, isdigit b = false := by
  unfold fracText
  cases x.frac with
  | none => exact hu
  | some fs =>
    intro b hb
    obtain rfl : chr '.' = b := Option.some.inj hb
    decide

/-- **A number denotes its digits before and after the decimal point.** -/
theorem textVal_text (x : JsonNumber) : textVal x.text =
    (if x.neg then -1 else 1) * (digitsVal x.int + x.frac.elim 0 fun fs => (digitsVal fs : ℚ) / 10 ^ fs.length) := by
  have hu := x.fracText_head (u := []) nofun
  rw [List.append_nil] at hu
  rw [text, intText, textVal_append x.neg x.int_ne x.int_digits hu]
  unfold fracText
  cases x.frac with
  | none =>
    have h0 : digitsVal [] = 0 := rfl
    simp [h0]
  | some fs => rfl

theorem textVal_of_frac_none (x : JsonNumber) (h : x.frac = none) : textVal x.text = x.intVal := by
  have htext : x.text = if x.neg then chr '-' :: x.int else x.int := by
    rw [text, fracText, h, intText]
    exact List.append_nil _
  rw [htext, textVal_digits x.neg x.int_ne x.int_digits]
  rfl

theorem strtol_text (x : JsonNumber) {c : Byte} {t : Bytes} (hc : isdigit c = false) :
    strtol (x.text ++ c :: t) = (clampLong x.intVal, x.intText.length) := by
  have hchr : chr '-' = 45 := by decide
  have hu : ∀ b ∈ (c :: t).head?, isdigit b = false := by
    intro b hb
    obtain rfl : c = b := Option.some.inj hb
    exact hc
  have h := strtol_digits x.neg x.int_ne x.int_digits (x.fracText_head hu)
  rw [text, List.append_assoc, intText, intVal, hchr, h]

theorem head_text (x : JsonNumber) (t : Bytes) : (x.text ++ t).head? ≠ some (chr '"') := by
  obtain ⟨d, ds, hd⟩ := List.exists_cons_of_ne_nil x.int_ne
  have hdigit := x.int_digits d (by simp [hd])
  unfold text intText
  cases x.neg with
  | true => simp; decide
  | false =>
    rw [hd]
    simp only [Bool.false_eq_true, if_false, List.cons_append, List.head?_cons, ne_eq, Option.some.injEq]
    rintro rfl
    exact absurd hdigit (by decide)

end JsonNumber

/-! ## The extraction -/

/-- **What is stored and returned for a number.** -/
theorem extract_jsonNumber {x : JsonNumber} {c : Byte} {t : Bytes} (h : AtValue json key (x.text ++ c :: t))
    (hc : isdigit c = false) (hn : 21 ≤ n) : ∃ out, extractJsonValue json key value = some (toInt x.intText.length, out) ∧
      cstr out.data = printLd (clampLong x.intVal) := by
  have hextract : extractJsonValue json key value = _ := extract_number h (x.head_text _)
  rw [x.strtol_text hc] at hextract
  have hrange := strtol_range (x.text ++ c :: t)
  rw [x.strtol_text hc] at hrange
  have hlen : (printLd (clampLong x.intVal)).length ≤ 20 := length_printLd_le hrange.1 hrange.2
  obtain ⟨out, hout⟩ := Arr.exists_store value 0 (printLd (clampLong x.intVal) ++ [0]) (by
    rw [List.length_append, List.length_singleton]
    omega)
  have hzero : (0 : Byte) ∉ printLd (clampLong x.intVal) := not_mem_printLd (by decide) (by decide) _
  refine ⟨out, ?_, Arr.cstr_store hout hzero⟩
  rw [hextract, hout]
  rfl

theorem clampLong_eq_iff (v : ℤ) : clampLong v = v ↔ LONG_MIN ≤ v ∧ v ≤ LONG_MAX := by
  have hle : LONG_MIN ≤ LONG_MAX := by decide
  unfold clampLong
  omega

/-- **When a number is reported faithfully.** It follows the first occurrence of the key,
and a comma or a brace follows it. -/
theorem reported_iff (x : JsonNumber) {c : Byte} {t : Bytes} (hk : key.length ≤ MAX_KEY_SIZE)
    (h : Follows json key (x.text ++ c :: t)) (hc : c = chr ',' ∨ c = chr '\x7d') (hn : 21 ≤ n) :
    Reported json key value x ↔
      x.frac = none ∧ LONG_MIN ≤ x.intVal ∧ x.intVal ≤ LONG_MAX ∧ x.text.length < 2 ^ 31 := by
  have hdigit : isdigit c = false := by rcases hc with rfl | rfl <;> decide
  obtain ⟨out, hout, hstr⟩ : ∃ out, extractJsonValue json key value = some (toInt x.intText.length, out) ∧
      cstr out.data = printLd (clampLong x.intVal) := extract_jsonNumber ((atValue_iff_follows hk).2 h) hdigit hn
  have hle := toInt_le x.intText.length
  have hlength : x.text.length = x.intText.length + x.fracText.length := List.length_append
  constructor
  · rintro ⟨out', hout', hval⟩
    have hpair := Option.some.inj (hout.symm.trans hout')
    have hret : toInt x.intText.length = x.text.length := (Prod.mk.inj hpair).1
    obtain rfl : out = out' := (Prod.mk.inj hpair).2
    -- not a byte is left for a fraction
    have hempty : x.fracText = [] := List.eq_nil_of_length_eq_zero (by omega)
    have hnone : x.frac = none := by
      unfold JsonNumber.fracText at hempty
      cases hf : x.frac with
      | none => rfl
      | some fs =>
        rw [hf] at hempty
        exact absurd hempty (List.cons_ne_nil _ _)
    rw [hstr, textVal_printLd, x.textVal_of_frac_none hnone] at hval
    have hclamp := (clampLong_eq_iff x.intVal).1 (by exact_mod_cast hval)
    refine ⟨hnone, hclamp.1, hclamp.2, ?_⟩
    have hcases := toInt_cases x.intText.length
    have hmod := Nat.mod_le x.intText.length (2 ^ 32)
    omega
  · rintro ⟨hnone, h0, h1, hlt⟩
    have hempty : x.fracText.length = 0 := by simp [JsonNumber.fracText, hnone]
    refine ⟨out, ?_, ?_⟩
    · rw [hout, toInt_of_lt (by omega), hlength, hempty, Nat.add_zero]
    · rw [hstr, textVal_printLd, x.textVal_of_frac_none hnone, (clampLong_eq_iff x.intVal).2 ⟨h0, h1⟩]

/-- 23 -/
def wholeDegrees : JsonNumber := ⟨false, bytes "23", none, by decide, by decide +kernel, nofun, nofun⟩

theorem reported_iff_whole : Reported (bytes "\"temperature\":23,\"status\":\"on\"") (bytes "temperature") (Arr.zeros 64)
    wholeDegrees := by
  have hfollows : Follows (bytes "\"temperature\":23,\"status\":\"on\"") (bytes "temperature")
      (wholeDegrees.text ++ chr ',' :: bytes "\"status\":\"on\"") :=
    ⟨[], bytes "23,\"status\":\"on\"", by decide, fun _ _ _ => Nat.zero_le _, by decide⟩
  exact (reported_iff wholeDegrees (by decide) hfollows (.inl rfl) (by decide)).2 ⟨rfl, by decide, by decide, by decide⟩

/-- 23.5, as in the sample messages -/
def halfDegrees : JsonNumber :=
  ⟨false, bytes "23", some (bytes "5"), by decide, by decide +kernel,
    fun _ h => by rw [← Option.some.inj h]; decide, fun _ h => by rw [← Option.some.inj h]; decide +kernel⟩

/-- The fraction is lost, and two bytes are reported. -/
theorem fraction_lost :
    (extractJsonValue (bytes "\"temperature\":23.5\x7d") (bytes "temperature") (Arr.zeros 64)).map
      (fun r => (r.1, cstr r.2.data)) = some (2, bytes "23") ∧
    ¬ Reported (bytes "\"temperature\":23.5\x7d") (bytes "temperature") (Arr.zeros 64) halfDegrees := by
  have hout : (extractJsonValue (bytes "\"temperature\":23.5\x7d") (bytes "temperature") (Arr.zeros 64)).map
      (fun r => (r.1, cstr r.2.data)) = some (2, bytes "23") := by decide +kernel
  refine ⟨hout, ?_⟩
  rintro ⟨out, h, -⟩
  rw [h, Option.map_some, Option.some.injEq] at hout
  have hlength : (halfDegrees.text.length : ℤ) = 2 := (Prod.mk.inj hout).1
  exact absurd hlength (by decide)

end EspNetwork.Iot
