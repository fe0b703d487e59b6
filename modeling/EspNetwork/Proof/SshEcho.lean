import EspNetwork.Proof.SshSession

/-!
# The echo of the SSH server

`data_function` compares what `ssh_channel_write` returns, a number of bytes, with
`SSH_OK`, and returns `SSH_OK` or `SSH_ERROR` where libssh expects a number of bytes.

* `Channel.deliverAll_buffer`: whatever the writes return, no byte is ever consumed.
* `Channel.echo_out`: when the writes succeed, each chunk is answered by the first ten
  bytes of its reply.
* `State.channel_buffer`: so for the channel of every reachable state of the server.
-/

namespace EspNetwork.Ssh

open CLib Lts

variable {c : Channel} {chunks : List Bytes}

/-- The return value counts no bytes. -/
theorem dataFunction_rc (write : Write) (channel : Option Channel) (data : Option Bytes) :
    (dataFunction write channel data).2.toNat = 0 := by
  have hok : sshOk.toNat = 0 := by decide
  have herr : sshError.toNat = 0 := by decide
  unfold dataFunction
  split
  · dsimp only
    split
    · exact herr
    split
    · exact herr
    split
    · exact herr
    · exact hok
  · exact herr

/-- A first write of all ten bytes is taken for a failure. -/
theorem dataFunction_full (c : Channel) (data : Bytes) :
    dataFunction fullWrite (some c) (some data) = (received, sshError) := by
  have hlen : fullWrite 0 received = 10 := by decide
  have hne : fullWrite 0 received ≠ sshOk := by decide
  have hall : written received (fullWrite 0 received) = received := by
    rw [hlen]; decide
  simp only [dataFunction, if_pos hne, hall]

namespace Channel

theorem deliver_buffer (write : Write) (c : Channel) (chunk : Bytes) :
    (c.deliver write chunk).buffer = c.buffer ++ chunk := by
  have hrc := dataFunction_rc write (some c) (some (c.buffer ++ chunk))
  simp only [deliver, hrc, List.drop_zero]

theorem deliver_full_out (c : Channel) (chunk : Bytes) :
    (c.deliver fullWrite chunk).out = c.out ++ received := by
  simp only [deliver, dataFunction_full]

/-- **No byte is consumed**: what has arrived is presented again with every chunk. -/
theorem deliverAll_buffer (c : Channel) (ds : List (Write × Bytes)) :
    (c.deliverAll ds).buffer = c.buffer ++ (ds.map Prod.snd).flatten := by
  induction ds generalizing c with
  | nil => simp [deliverAll]
  | cons d ds ih =>
    have hrest := ih (c.deliver d.1 d.2)
    rw [deliver_buffer] at hrest
    rw [List.map_cons, List.flatten_cons, ← List.append_assoc, ← hrest]
    rfl

/-- **What is written** when every write succeeds: the text before the data, and no data. -/
theorem echo_out (c : Channel) (chunks : List Bytes) :
    (c.echo chunks).out = c.out ++ chunks.flatMap fun _ => received := by
  induction chunks generalizing c with
  | nil => simp [echo, deliverAll]
  | cons chunk chunks ih =>
    have hrest := ih (c.deliver fullWrite chunk)
    rw [deliver_full_out] at hrest
    rw [List.flatMap_cons, ← List.append_assoc, ← hrest]
    rfl

/-- A reply is longer than what is written for its chunk. -/
theorem length_lt_replies (hne : chunks ≠ []) :
    (chunks.flatMap fun _ => received).length < (chunks.flatMap reply).length := by
  have hlt : ∀ chunk, received.length < (reply chunk).length := by
    intro chunk
    have hprompt : prompt.length = 3 := by decide
    simp only [reply, List.length_append]
    omega
  obtain ⟨chunk, rest, hsplit⟩ := List.exists_cons_of_ne_nil hne
  have hle : (rest.flatMap fun _ => received).length ≤ (rest.flatMap reply).length := by
    rw [List.length_flatMap, List.length_flatMap]
    apply List.sum_le_sum
    intro chunk _
    exact (hlt chunk).le
  have hhead := hlt chunk
  rw [hsplit, List.flatMap_cons, List.flatMap_cons, List.length_append, List.length_append]
  omega

/-- **When the data is echoed**, all writes succeeding: for no chunk at all, and only then. -/
theorem echo_iff (session : ℕ) (chunks : List Bytes) :
    ((new session).echo chunks).out = chunks.flatMap reply ↔ chunks = [] := by
  rw [echo_out]
  constructor
  · intro hout
    by_contra hne
    have hlt := length_lt_replies hne
    rw [← hout] at hlt
    exact absurd hlt (by simp [new])
  · intro hnil
    subst hnil
    rfl

/-- A client that sends `hi` reads `Received: `, and `hi` is kept to be presented again. -/
theorem hi_not_echoed : (new 1).echo [bytes "hi"] = ⟨1, bytes "hi", bytes "Received: "⟩ ∧
    ((new 1).echo [bytes "hi"]).out ≠ [bytes "hi"].flatMap reply := by
  decide

end Channel

/-! ## The channel of the server -/

namespace State

variable {s : State}

/-- A channel that is what the chunks delivered to it have made of a new one. -/
def Delivered (c : Channel) : Prop := ∃ ds, c = (Channel.new c.session).deliverAll ds

theorem Delivered.deliver (h : Delivered c) (write : Write) (chunk : Bytes) :
    Delivered (c.deliver write chunk) := by
  obtain ⟨ds, hc⟩ := h
  refine ⟨ds ++ [(write, chunk)], ?_⟩
  have hsess : (c.deliver write chunk).session = c.session := rfl
  rw [hsess, Channel.deliverAll, List.foldl_append]
  rw [Channel.deliverAll] at hc
  rw [← hc]
  rfl

theorem delivered_of_reach (h : machine.Reach anyStep s) : ∀ c, s.channel = some c → Delivered c := by
  refine h.invariant (P := fun s => ∀ c, s.channel = some c → Delivered c) ?_ ?_
  · intro c hc
    exact absurd hc (by simp [machine, init])
  · intro s l t hi _ hs
    cases step_cases hs with
    | goto | created | accepted | authNone | refused => exact hi
    | cleanup => intro c hc; exact absurd hc (by simp)
    | authPassword => rw [attempt_channel]; exact hi
    | channelOpen =>
      intro c hc
      split at hc
      · simp only [Option.some.injEq] at hc; subst hc
        exact ⟨[], rfl⟩
      · exact absurd hc (by simp)
    | @data write chunk c hpc hc =>
      intro c' hc'
      simp only [Option.some.injEq] at hc'; subst hc'
      exact (hi c hc).deliver write chunk

/-- **The server's channel keeps all that has arrived on it**, in every reachable state. -/
theorem channel_buffer (h : machine.Reach anyStep s) (hc : s.channel = some c) :
    ∃ ds, c = (Channel.new c.session).deliverAll ds ∧ c.buffer = (ds.map Prod.snd).flatten := by
  obtain ⟨ds, hds⟩ := delivered_of_reach h c hc
  have hbuf := Channel.deliverAll_buffer (.new c.session) ds
  rw [← hds] at hbuf
  exact ⟨ds, hds, hbuf⟩

end State

end EspNetwork.Ssh
