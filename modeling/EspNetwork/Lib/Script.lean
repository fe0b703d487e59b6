import Mathlib

/-!
# Programs that print and may raise

A `Script` appends lines to its output and returns a value, or raises an exception; what it
has printed by then stays.

* `Returns x Q`: the program `x` returns a value with `Q`, whatever has been printed before.
* `Raises x e`: it raises `e`.
* `Returns.bind`, `Raises.bind`, `Returns.bind_raises`: the rules for two programs in a row.
* `Returns.print_value`, `Raises.print_value`: a line that shows what a program returns.
-/

/-- A program with exceptions `ε` and lines `ω`. -/
abbrev Script (ε ω α : Type) := ExceptT ε (StateM (List ω)) α

namespace Script

variable {ε ω α β : Type} {x : Script ε ω α} {f : α → Script ε ω β} {Q : α → Prop} {R : β → Prop} {e : ε}

def print (line : ω) : Script ε ω Unit := modify (· ++ [line])

/-- The value or the exception, and the output. -/
def exec (x : Script ε ω α) (out : List ω) : Except ε α × List ω := Id.run ((ExceptT.run x).run out)

theorem exec_pure (a : α) (out : List ω) : (pure a : Script ε ω α).exec out = (.ok a, out) := rfl

theorem exec_throw (e : ε) (out : List ω) : (throw e : Script ε ω α).exec out = (.error e, out) := rfl

theorem exec_print (line : ω) (out : List ω) : (print line : Script ε ω Unit).exec out = (.ok (), out ++ [line]) := rfl

/-- The second program runs on what the first has printed, unless that one raises. -/
theorem exec_bind (out : List ω) : (x >>= f).exec out =
    match x.exec out with
    | (.ok a, out) => (f a).exec out
    | (.error e, out) => (.error e, out) := by
  unfold exec
  simp only [ExceptT.run_bind, StateT.run_bind]
  rcases StateT.run (ExceptT.run x) out with ⟨e | a, out'⟩
  · rfl
  · rfl

/-- A line is printed before the rest runs. -/
theorem exec_print_bind (line : ω) (f : Unit → Script ε ω β) (out : List ω) :
    (print line >>= f).exec out = (f ()).exec (out ++ [line]) := rfl

/-- The program returns a value with `Q`. -/
def Returns (x : Script ε ω α) (Q : α → Prop) : Prop := ∀ out, ∃ a more, x.exec out = (.ok a, out ++ more) ∧ Q a

/-- The program raises `e`. -/
def Raises (x : Script ε ω α) (e : ε) : Prop := ∀ out, ∃ more, x.exec out = (.error e, out ++ more)

theorem returns_pure {a : α} (h : Q a) : Returns (pure a : Script ε ω α) Q :=
  fun out => ⟨a, [], by rw [exec_pure, List.append_nil], h⟩

theorem raises_throw : Raises (throw e : Script ε ω α) e :=
  fun out => ⟨[], by rw [exec_throw, List.append_nil]⟩

/-- Printing always succeeds. -/
theorem returns_print {line : ω} : Returns (print line : Script ε ω Unit) fun _ => True :=
  fun out => ⟨(), [line], exec_print line out, trivial⟩

/-- **Two programs in a row**: the second returns for whatever the first may return. -/
theorem Returns.bind (hx : Returns x Q) (hf : ∀ a, Q a → Returns (f a) R) : Returns (x >>= f) R := by
  intro out
  obtain ⟨a, more, hxe, ha⟩ := hx out
  obtain ⟨b, more', hfe, hb⟩ := hf a ha (out ++ more)
  refine ⟨b, more ++ more', ?_, hb⟩
  rw [exec_bind, hxe, ← List.append_assoc]
  exact hfe

/-- What follows a program that raises does not run. -/
theorem Raises.bind (hx : Raises x e) : Raises (x >>= f) e := by
  intro out
  obtain ⟨more, hxe⟩ := hx out
  exact ⟨more, by rw [exec_bind, hxe]⟩

/-- The second program of two may be the one that raises. -/
theorem Returns.bind_raises (hx : Returns x Q) (hf : ∀ a, Q a → Raises (f a) e) : Raises (x >>= f) e := by
  intro out
  obtain ⟨a, more, hxe, ha⟩ := hx out
  obtain ⟨more', hfe⟩ := hf a ha (out ++ more)
  refine ⟨more ++ more', ?_⟩
  rw [exec_bind, hxe, ← List.append_assoc]
  exact hfe

/-- A line before a program that returns. -/
theorem Returns.print_bind {line : ω} {f : Unit → Script ε ω β} (h : Returns (f ()) R) :
    Returns (print line >>= f) R :=
  returns_print.bind fun _ _ => h

/-- A line before a program that raises. -/
theorem Raises.print_bind {line : ω} {f : Unit → Script ε ω β} (h : Raises (f ()) e) :
    Raises (print line >>= f) e :=
  returns_print.bind_raises fun _ _ => h

/-- A line that shows a value. -/
theorem Returns.print_value {line : α → ω} {f : Unit → Script ε ω β} (hx : Returns x Q) (h : Returns (f ()) R) :
    Returns (x >>= fun a => print (line a) >>= f) R :=
  hx.bind fun _ _ => h.print_bind

/-- A line that shows a value, before a program that raises. -/
theorem Raises.print_value {line : α → ω} {f : Unit → Script ε ω β} (hx : Returns x Q) (h : Raises (f ()) e) :
    Raises (x >>= fun a => print (line a) >>= f) e :=
  hx.bind_raises fun _ _ => h.print_bind

/-- The postcondition may be weakened. -/
theorem Returns.mono {Q' : α → Prop} (h : Returns x Q) (hQ : ∀ a, Q a → Q' a) : Returns x Q' := by
  intro out
  obtain ⟨a, more, he, ha⟩ := h out
  exact ⟨a, more, he, hQ a ha⟩

/-- A loop returns if its body does, for every element. -/
theorem returns_forM {γ : Type} {xs : List γ} {f : γ → Script ε ω Unit} (h : ∀ y ∈ xs, Returns (f y) fun _ => True) :
    Returns (forM xs f) fun _ => True := by
  induction xs with
  | nil => exact returns_pure trivial
  | cons y ys ih =>
    rw [List.forM_cons]
    exact (h y List.mem_cons_self).bind fun _ _ => ih fun y hy => h y (List.mem_cons_of_mem _ hy)

end Script
