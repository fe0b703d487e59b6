import EspNetwork.Lib.Machine

/-!
# A sender and a receiver over a datagram network

Two machines: the steps of one may emit a datagram, the other takes a datagram a step.
The network loses, delays, reorders and duplicates: at any time it delivers any datagram
that has been emitted, any number of times.

* `Net.run_receiver`: the receiver's side of a run is a run of its own machine.
* `Net.sent_invariant`: what holds of the sender and of all that it has emitted.
-/

namespace Lts

/-- Both sides, and what has been emitted, oldest first. -/
structure Net (S R M : Type*) where
  snd : S
  rcv : R
  sent : List M

inductive NetLabel (L : Type*)
  | send (l : L)
  /-- the datagram with this number arrives -/
  | deliver (k : ℕ)

namespace Net

variable {S R L M : Type*} (A : Machine S L) (emits : S → L → Option M) (B : Machine R M)

def step (w : Net S R M) : NetLabel L → Option (Net S R M)
  | .send l => (A.step w.snd l).map fun s => { w with snd := s, sent := w.sent ++ (emits w.snd l).toList }
  | .deliver k => w.sent[k]?.bind fun d => (B.step w.rcv d).map fun r => { w with rcv := r }

def machine : Machine (Net S R M) (NetLabel L) := ⟨⟨A.init, B.init, []⟩, step A emits B⟩

/-- The datagrams that have arrived, in order. -/
def delivered (sent : List M) (ls : List (NetLabel L)) : List M :=
  ls.filterMap fun
    | .send _ => none
    | .deliver k => sent[k]?

variable {A emits B} {G : Net S R M → NetLabel L → Prop} {w v : Net S R M} {l : NetLabel L} {ls : List (NetLabel L)}

theorem step_cases (hs : (machine A emits B).step w l = some v) :
    (∃ a s, l = .send a ∧ A.step w.snd a = some s ∧
      v = { w with snd := s, sent := w.sent ++ (emits w.snd a).toList }) ∨
    (∃ k d r, l = .deliver k ∧ w.sent[k]? = some d ∧ B.step w.rcv d = some r ∧ v = { w with rcv := r }) := by
  cases l with
  | send a =>
    obtain ⟨s, ha, rfl⟩ := Option.map_eq_some_iff.1 hs
    exact .inl ⟨a, s, rfl, ha, rfl⟩
  | deliver k =>
    obtain ⟨d, hd, hs⟩ := Option.bind_eq_some_iff.1 hs
    obtain ⟨r, hr, rfl⟩ := Option.map_eq_some_iff.1 hs
    exact .inr ⟨k, d, r, rfl, hd, hr, rfl⟩

theorem step_send {a : L} {s : S} {d : M} (hs : A.step w.snd a = some s) (he : emits w.snd a = some d) :
    (machine A emits B).step w (.send a) = some { w with snd := s, sent := w.sent ++ [d] } := by
  simp only [machine, step, hs, he, Option.map_some, Option.toList_some]

theorem step_deliver {k : ℕ} {d : M} {r : R} (hd : w.sent[k]? = some d) (hr : B.step w.rcv d = some r) :
    (machine A emits B).step w (.deliver k) = some { w with rcv := r } := by
  simp only [machine, step, hd, hr, Option.bind_some, Option.map_some]

/-- What arrives stays in the network. -/
theorem sent_deliver {k : ℕ} (hs : (machine A emits B).step w (.deliver k) = some v) : v.sent = w.sent := by
  rcases step_cases hs with ⟨a, s, ha, -⟩ | ⟨j, d, r, -, -, -, rfl⟩
  · cases ha
  · rfl

theorem mem_of_delivered {sent : List M} {d : M} (h : d ∈ delivered sent ls) : d ∈ sent := by
  obtain ⟨l, -, hd⟩ := List.mem_filterMap.1 h
  cases l with
  | send a => cases hd
  | deliver k => exact List.mem_of_getElem? hd

/-- What has arrived does not change with what is emitted later. -/
theorem delivered_append {sent more : List M} (h : ∀ k, .deliver k ∈ ls → k < sent.length) :
    delivered (sent ++ more) ls = delivered sent ls := by
  apply List.filterMap_congr
  intro l hl
  cases l with
  | send a => rfl
  | deliver k => exact List.getElem?_append_left (h k hl)

/-- Only what has been emitted arrives. -/
theorem deliver_lt (h : (machine A emits B).Run G (machine A emits B).init ls w) (k : ℕ) (hk : .deliver k ∈ ls) :
    k < w.sent.length := by
  induction h with
  | nil => cases hk
  | snoc hrun hg hs ih =>
    rcases step_cases hs with ⟨a, s, rfl, -, rfl⟩ | ⟨j, d, r, rfl, hd, -, rfl⟩
    · rcases List.mem_append.1 hk with hk | hk
      · have := ih hk
        rw [List.length_append]
        omega
      · cases List.mem_singleton.1 hk
    · rcases List.mem_append.1 hk with hk | hk
      · exact ih hk
      · cases List.mem_singleton.1 hk
        exact (List.getElem?_eq_some_iff.1 hd).1

/-- **The receiver's side**: its machine on the datagrams that have arrived. -/
theorem run_receiver (h : (machine A emits B).Run G (machine A emits B).init ls w) :
    B.Run anyStep B.init (delivered w.sent ls) w.rcv := by
  induction h with
  | nil => exact .nil
  | @snoc ls w l v hrun hg hs ih =>
    have hlt := deliver_lt hrun
    rcases step_cases hs with ⟨a, s, rfl, -, rfl⟩ | ⟨j, d, r, rfl, hd, hr, rfl⟩
    · have hsame : delivered (w.sent ++ (emits w.snd a).toList) (ls ++ [.send a]) = delivered w.sent ls := by
        rw [← delivered_append hlt, delivered, List.filterMap_append]
        exact List.append_nil _
      rw [hsame]
      exact ih
    · have hsnoc : delivered w.sent (ls ++ [.deliver j]) = delivered w.sent ls ++ [d] := by
        have hlast : delivered w.sent [.deliver (L := L) j] = [d] := by simp [delivered, hd]
        rw [← hlast]
        exact List.filterMap_append
      rw [hsnoc]
      exact ih.snoc trivial hr

/-- **An invariant of the sender and of what it has emitted.** -/
theorem sent_invariant {P : S → List M → Prop} (h : (machine A emits B).Run G (machine A emits B).init ls w)
    (h0 : P A.init []) (hstep : ∀ s xs a t, P s xs → A.step s a = some t → P t (xs ++ (emits s a).toList)) :
    P w.snd w.sent := by
  induction h with
  | nil => exact h0
  | snoc hrun hg hs ih =>
    rcases step_cases hs with ⟨a, s, rfl, ha, rfl⟩ | ⟨j, d, r, rfl, -, -, rfl⟩
    · exact hstep _ _ a s ih ha
    · exact ih

end Net

end Lts
