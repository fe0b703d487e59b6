import EspNetwork.Lib.Handles

/-!
# Processes that own handles

A main process and any number of others, each holding some handles, beside the history
of the operations on handles.

* `Owns`: the history is proper, and the live handles are those held, each once.
* `Owns.acquire`, `Owns.spawn`, `Owns.use`, `Owns.release`, `Owns.become`: one rule for
  each thing a process may do.
* `Owns.balance`: once nothing is held, each handle has been released as often as it was
  acquired.
-/

namespace Handle

variable {α P : Type*} [DecidableEq α] {own : P → List α} {main main' : List α} {ps : List P}
variable {h : List (Event α)} {i : ℕ} {p q : P} {a : α}

/-- What the main process and the others hold is what is live. -/
structure Owns (own : P → List α) (main : List α) (ps : List P) (h : List (Event α)) : Prop where
  proper : Proper h
  live : (live h).Perm (main ++ ps.flatMap own)

omit [DecidableEq α] in
/-- What one process holds, and the rest, which does not change with that process. -/
theorem flatMap_set (own : P → List α) (hi : ps[i]? = some p) :
    ∃ rest, (ps.flatMap own).Perm (own p ++ rest) ∧ ∀ q, ((ps.set i q).flatMap own).Perm (own q ++ rest) := by
  obtain ⟨hlt, rfl⟩ := List.getElem?_eq_some_iff.1 hi
  refine ⟨(ps.eraseIdx i).flatMap own, ?_, fun q => ?_⟩
  · exact ((List.getElem_cons_eraseIdx_perm hlt).symm.flatMap_right own)
  · have hlt' : i < (ps.set i q).length := by rwa [List.length_set]
    have := (List.getElem_cons_eraseIdx_perm hlt').symm.flatMap_right own
    rwa [List.getElem_set_self, List.eraseIdx_set_eq] at this

/-- Each handle is held once. -/
theorem Owns.nodup (h' : Owns own main ps h) : (main ++ ps.flatMap own).Nodup :=
  h'.live.nodup_iff.1 (live_nodup h'.proper)

/-- What a process holds is live. -/
theorem Owns.mem (h' : Owns own main ps h) (hi : ps[i]? = some p) (ha : a ∈ own p) : a ∈ Handle.live h :=
  h'.live.mem_iff.2 (List.mem_append_right _ (List.mem_flatMap.2 ⟨p, List.mem_of_getElem? hi, ha⟩))

theorem Owns.mem_main (h' : Owns own main ps h) (ha : a ∈ main) : a ∈ Handle.live h :=
  h'.live.mem_iff.2 (List.mem_append_left _ ha)

/-- The main process gets a new handle. -/
theorem Owns.acquire (h' : Owns own main ps h) (ha : a ∉ Handle.live h) : Owns own (a :: main) ps (.acquire a :: h) :=
  ⟨⟨h'.proper, ha⟩, h'.live.cons a⟩

/-- The main process starts another one and hands some of its handles over. -/
theorem Owns.spawn (h' : Owns own main ps h) (hq : main.Perm (own q ++ main')) : Owns own main' (ps ++ [q]) h := by
  refine ⟨h'.proper, h'.live.trans ?_⟩
  rw [List.flatMap_append, List.flatMap_singleton]
  have hmove : (own q ++ main' ++ ps.flatMap own).Perm (main' ++ (ps.flatMap own ++ own q)) := by
    rw [← List.append_assoc, List.append_assoc]
    exact List.perm_append_comm
  exact (hq.append_right _).trans hmove

theorem Owns.use_main (h' : Owns own main ps h) (ha : a ∈ main) : Owns own main ps (.use a :: h) :=
  ⟨⟨h'.proper, h'.mem_main ha⟩, h'.live⟩

/-- A process uses a handle that it holds. -/
theorem Owns.use (h' : Owns own main ps h) (hi : ps[i]? = some p) (ha : a ∈ own p) : Owns own main ps (.use a :: h) :=
  ⟨⟨h'.proper, h'.mem hi ha⟩, h'.live⟩

/-- The main process gives one of its handles back. -/
theorem Owns.release_main (h' : Owns own main ps h) (ha : main.Perm (a :: main')) :
    Owns own main' ps (.release a :: h) := by
  refine ⟨⟨h'.proper, h'.mem_main (ha.mem_iff.2 List.mem_cons_self)⟩, ?_⟩
  have := (h'.live.trans (ha.append_right _)).erase a
  rwa [List.cons_append, List.erase_cons_head] at this

/-- A process gives back a handle that it holds. -/
theorem Owns.release (h' : Owns own main ps h) (hi : ps[i]? = some p) (ha : (own p).Perm (a :: own q)) :
    Owns own main (ps.set i q) (.release a :: h) := by
  refine ⟨⟨h'.proper, h'.mem hi (ha.mem_iff.2 List.mem_cons_self)⟩, ?_⟩
  obtain ⟨rest, hp, hq⟩ := flatMap_set own hi
  have hsplit : (main ++ ps.flatMap own).Perm (a :: (main ++ (own q ++ rest))) := by
    have hrest : (ps.flatMap own).Perm (a :: (own q ++ rest)) := hp.trans (ha.append_right rest)
    exact (hrest.append_left main).trans List.perm_middle
  have := (h'.live.trans hsplit).erase a
  rw [List.erase_cons_head] at this
  exact this.trans ((hq q).symm.append_left main)

/-- A process goes on with the handles it has. -/
theorem Owns.become (h' : Owns own main ps h) (hi : ps[i]? = some p) (hq : (own p).Perm (own q)) :
    Owns own main (ps.set i q) h := by
  obtain ⟨rest, hp, hset⟩ := flatMap_set own hi
  refine ⟨h'.proper, h'.live.trans (List.Perm.append_left main ?_)⟩
  exact (hp.trans (hq.append_right rest)).trans (hset q).symm

/-- **Nothing is lost.** A handle held by nobody has been released as often as it was acquired. -/
theorem Owns.balance (h' : Owns own main ps h) (hm : a ∉ main) (hp : ∀ p ∈ ps, a ∉ own p) :
    h.count (.acquire a) = h.count (.release a) := by
  have hnot : a ∉ Handle.live h := by
    rw [h'.live.mem_iff, List.mem_append, List.mem_flatMap]
    intro hmem
    rcases hmem with hmem | ⟨p, hmem, ha⟩
    · exact hm hmem
    · exact hp p hmem ha
  have := count_acquire a h'.proper
  rwa [List.count_eq_zero_of_not_mem hnot, Nat.add_zero] at this

end Handle
