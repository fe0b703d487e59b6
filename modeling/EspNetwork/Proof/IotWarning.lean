import EspNetwork.Proof.IotSafe

/-!
# The format string of `print_http_analysis`

`printf(error_msg)` is reached with a constant only: a line of the HTTP branch starts
with a method, the copy of the method stores its first byte at the start of the
struct, and no later copy, however far it runs, stores there again.

* `method_of_copies`: after the copies the method is not empty.
* `format_constant`: **the empty-method branch prints the constant warning.**
-/

namespace EspNetwork.Iot

open CLib

variable {n : Nat} {lim : Limit} {L m u b : Bytes}

/-- A line of the HTTP branch starts with `G` or `P`. -/
theorem head_of_http (h : bytes "GET" <+: L ∨ bytes "POST" <+: L) : ∃ c, L.head? = some c ∧ c ≠ 0 := by
  rcases h with ⟨t, rfl⟩ | ⟨t, rfl⟩
  · exact ⟨chr 'G', rfl, by decide⟩
  · exact ⟨chr 'P', rfl, by decide⟩

/-- The string at the start of a region is not empty if its first byte is not NUL. -/
theorem method_ne_nil_of_head {mem : Arr n} {c : Byte} (h : mem.data.head? = some c) (hc : c ≠ 0) :
    fieldStr mem method ≠ [] := by
  obtain ⟨r, hr⟩ := List.head?_eq_some_iff.1 h
  rw [fieldStr, show method.off = 0 from rfl, List.drop_zero, hr, cstr_cons hc]
  exact List.cons_ne_nil _ _

/-- A copy to a field behind the first byte leaves the first byte. -/
theorem head_strcpyField {mem mem' : Arr n} {f : Field} (h : strcpyField lim mem f u = some mem')
    (hf : 0 < f.off) : mem'.data.head? = mem.data.head? := by
  have htake := Arr.take_store (strcpyField_store h)
  have hhead := congrArg List.head? htake
  rwa [List.head?_take, List.head?_take, if_neg (by omega), if_neg (by omega)] at hhead

/-- The copy of the method stores its first byte. -/
theorem head_strcpyMethod {mem mem' : Arr n} {c : Byte} (h : strcpyField lim mem method m = some mem')
    (hm : m.head? = some c) : mem'.data.head? = some c := by
  obtain ⟨r, rfl⟩ := List.head?_eq_some_iff.1 hm
  rw [(Arr.store_eq_some_iff.1 (strcpyField_store h)).2]
  rfl

/-- **The method survives the copies**, in a region of any size and however far they run. -/
theorem method_of_copies {mem mem1 mem2 mem3 : Arr n} {c : Byte} (hm : m.head? = some c) (hc : c ≠ 0)
    (h1 : strcpyField lim mem method m = some mem1) (h2 : strcpyField lim mem1 path u = some mem2)
    (h3 : strcpyField lim mem2 body b = some mem3) : fieldStr mem1 method ≠ [] ∧ fieldStr mem3 method ≠ [] := by
  have hh1 := head_strcpyMethod h1 hm
  have hh3 : mem3.data.head? = some c := by
    rw [head_strcpyField h3 (by decide), head_strcpyField h2 (by decide), hh1]
  exact ⟨method_ne_nil_of_head hh1 hc, method_ne_nil_of_head hh3 hc⟩

/-- The method of a line with a space starts as the line does. -/
theorem head_method {r : Bytes} {c : Byte} (h : (m ++ chr ' ' :: r).head? = some c) (hm : m ≠ []) : m.head? = some c := by
  obtain ⟨d, t, rfl⟩ := List.exists_cons_of_ne_nil hm
  exact h

/-- Whatever the bounds, a parsed line with a space has a method. -/
theorem method_of_parse {msg : HttpMessage} (hh : bytes "GET" <+: L ∨ bytes "POST" <+: L) (hsp : chr ' ' ∈ L)
    (h : parseHttpRequest lim L (Arr.zeros _) = some msg) : fieldStr msg method ≠ [] := by
  obtain ⟨c, hc, hc0⟩ := head_of_http hh
  obtain ⟨m, r, rfl, hms⟩ := List.eq_append_cons_of_mem hsp
  have hm := head_method hc (method_ne_nil hh)
  by_cases hsr : chr ' ' ∈ r
  · obtain ⟨u, b, rfl, hus⟩ := List.eq_append_cons_of_mem hsr
    rw [parseHttpRequest_split hms hus] at h
    obtain ⟨msg1, h1, h⟩ := Option.bind_eq_some_iff.1 h
    obtain ⟨msg2, h2, h3⟩ := Option.bind_eq_some_iff.1 h
    exact (method_of_copies hm hc0 h1 h2 h3).2
  · rw [parseHttpRequest_one_space hms hsr] at h
    exact method_ne_nil_of_head (head_strcpyMethod h hm) hc0

/-- With neither method nor path, `error_msg` is the constant warning. -/
theorem errorMsg_constant {msg : HttpMessage} (h : fieldStr msg method = []) (hp : fieldStr msg path = []) :
    errorMsg msg = some (warning []) := by
  simp only [errorMsg, h, hp, if_true]
  decide

/-- **The format string is a constant.** On every line that `main` hands to the HTTP
branch, and whatever bounds the copies observe: the branch for an empty method is taken
only if the line has no space; then the path is empty too and the format is the warning
without any byte of the line, which has no conversion specification and fits its array.
Otherwise nothing is formatted. The last part says the same of copies that run on into
the memory behind the struct. -/
theorem format_constant (L : Bytes) (hh : bytes "GET" <+: L ∨ bytes "POST" <+: L) :
    (∀ lim, dispatch lim L = (parseHttpRequest lim L (Arr.zeros _)).bind printHttpAnalysis) ∧
    (∀ lim msg, parseHttpRequest lim L (Arr.zeros _) = some msg →
      (fieldStr msg method = [] → chr ' ' ∉ L ∧ fieldStr msg path = [] ∧ errorMsg msg = some (warning [])) ∧
      (fieldStr msg method ≠ [] → errorMsg msg = some [])) ∧
    chr '%' ∉ warning [] ∧ (warning [] ++ [0]).length ≤ 100 ∧
    (∀ {n : Nat} (lim : Limit) (mem mem1 mem2 mem3 : Arr n) (m u b : Bytes),
      L = m ++ chr ' ' :: (u ++ chr ' ' :: b) → strcpyField lim mem method m = some mem1 →
      strcpyField lim mem1 path u = some mem2 → strcpyField lim mem2 body b = some mem3 →
      fieldStr mem1 method ≠ [] ∧ fieldStr mem3 method ≠ []) := by
  have hmqtt : ¬ bytes "mqtt" <+: L := by
    rintro ⟨t, ht⟩
    rcases hh with ⟨r, hr⟩ | ⟨r, hr⟩
    · exact absurd (List.cons.inj (hr.trans ht.symm)).1 (by decide)
    · exact absurd (List.cons.inj (hr.trans ht.symm)).1 (by decide)
  refine ⟨?_, ?_, by decide, by decide, ?_⟩
  · intro lim
    simp only [dispatch, List.isPrefixOf_iff_prefix, hmqtt, hh, if_true, if_false, Option.bind_eq_bind]
  · intro lim msg hmsg
    refine ⟨fun hempty => ?_, errorMsg_of_method⟩
    have hsp : chr ' ' ∉ L := fun hsp => method_of_parse hh hsp hmsg hempty
    rw [parseHttpRequest_no_space hsp, Option.some.injEq] at hmsg
    subst hmsg
    exact ⟨hsp, fieldStr_zeros, errorMsg_constant fieldStr_zeros fieldStr_zeros⟩
  · rintro n lim mem mem1 mem2 mem3 m u b rfl h1 h2 h3
    obtain ⟨c, hc, hc0⟩ := head_of_http hh
    exact method_of_copies (head_method hc (method_ne_nil hh)) hc0 h1 h2 h3

/-- `format_constant` at a line without a space. -/
theorem format_constant_get : ∃ msg, parseHttpRequest (flat (8 + MAX_PATH_SIZE + MAX_BUFFER_SIZE)) (bytes "GET%n%n")
    (Arr.zeros _) = some msg ∧ errorMsg msg = some (warning []) := by
  have hparse : parseHttpRequest (flat (8 + MAX_PATH_SIZE + MAX_BUFFER_SIZE)) (bytes "GET%n%n") (Arr.zeros _) =
      some (Arr.zeros _) := parseHttpRequest_no_space (by decide)
  obtain ⟨-, hall, -⟩ := format_constant (bytes "GET%n%n") (.inl ⟨bytes "%n%n", rfl⟩)
  exact ⟨Arr.zeros _, hparse, ((hall _ _ hparse).1 fieldStr_zeros).2.2⟩

end EspNetwork.Iot
