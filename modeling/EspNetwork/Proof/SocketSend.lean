import EspNetwork.Spec.SocketSend

/-!
# When `socket_send` delivers the buffer

A would-block result is subtracted like a count of bytes, so each makes the loop send one
byte more than is left, from one byte further back.

* `Sound.step`, `Beyond.step`: the closed form of the loop's state, for a length that fits
  in `to_write` and for one that does not.
* `delivers_iff`: **the buffer is delivered once and in order iff would-block results come
  last and are no more than the bytes accepted**, for every length and every sequence of
  results.
-/

namespace EspNetwork.Tcp

open CLib Lts

variable {len : ℕ} {s t : Sending} {r : Except Errno ℕ} {rs : List (Except Errno ℕ)} {data : Bytes}

/-! ## Delivery, and the condition -/

/-- A moment of a call at which nothing has gone wrong: every range is inside the buffer, the
bytes accepted are its first ones, and the result says what has happened. -/
structure Delivers (data : Bytes) (s : Sending) : Prop where
  inside : ∀ c ∈ s.calls, 0 ≤ c.offset ∧ c.offset + c.count ≤ data.length
  /-- the next call -/
  next : s.ret = none → 0 ≤ data.length - s.toWrite
  inOrder : s.sent data <+: data
  complete : s.ret = some (toInt data.length) → s.sent data = data
  failed : s.ret = some (-1) → ∃ c ∈ s.calls.getLast?, ∃ e, c.result = .error e ∧ e.soft = false

/-- The bytes a result accepts. -/
def count : Except Errno ℕ → ℕ
  | .ok written => written
  | .error _ => 0

/-- Would-block, in one of its forms. -/
def blocks : Except Errno ℕ → Bool
  | .ok _ => false
  | .error errno => errno.soft

def accepted (rs : List (Except Errno ℕ)) : ℕ := (rs.map count).sum

def blocked (rs : List (Except Errno ℕ)) : ℕ := rs.countP blocks

/-- Would-block results come last and are no more than the bytes accepted. With a length
that does not fit in `to_write`, no byte is accepted and the loop goes on. -/
def Deliverable (len : ℕ) (rs : List (Except Errno ℕ)) : Prop :=
  if len < 2 ^ 31 then rs.Pairwise (fun r r' => blocks r → count r' = 0) ∧ blocked rs ≤ accepted rs
  else 0 < toInt len ∧ accepted rs = 0 ∧ toInt len + blocked rs < 2 ^ 31

theorem accepted_concat : accepted (rs ++ [r]) = accepted rs + count r := by
  simp [accepted]

theorem blocked_concat : blocked (rs ++ [r]) = blocked rs + if blocks r then 1 else 0 := by
  rw [blocked, List.countP_append, List.countP_singleton]
  rfl

theorem Deliverable.of_concat (h : Deliverable len (rs ++ [r])) : Deliverable len rs := by
  unfold Deliverable at h ⊢
  rw [accepted_concat, blocked_concat] at h
  split
  · rename_i hlen
    rw [if_pos hlen, List.pairwise_append] at h
    obtain ⟨⟨hp, -, hlast⟩, hle⟩ := h
    refine ⟨hp, ?_⟩
    by_cases h0 : blocked rs = 0
    · omega
    · -- something has blocked, so `r` accepts nothing
      obtain ⟨b, hb, hblocks⟩ := List.countP_pos_iff.1 (Nat.pos_of_ne_zero h0)
      have := hlast b hb r (List.mem_singleton_self r) hblocks
      omega
  · rename_i hlen
    rw [if_neg hlen] at h
    omega

/-! ## One turn of the loop -/

/-- **What a call can do**: it takes some bytes, counts -1 after `EAGAIN`, or ends the loop with
its error. -/
theorem Sending.step_cases (h : s.step len r = some t) : s.ret = none ∧
    ((∃ written : ℕ, r = .ok written ∧ 1 ≤ written ∧ written ≤ s.toWrite ∧
        t = loop len (subtract s.toWrite written) (s.calls ++ [⟨len - s.toWrite, s.toWrite, r⟩])) ∨
      (∃ errno, r = .error errno ∧ errno.soft = true ∧
        t = loop len (subtract s.toWrite (-1)) (s.calls ++ [⟨len - s.toWrite, s.toWrite, r⟩])) ∨
      (∃ errno, r = .error errno ∧ errno.soft = false ∧
        t = ⟨s.toWrite, some (-1), s.calls ++ [⟨len - s.toWrite, s.toWrite, r⟩]⟩)) := by
  unfold Sending.step at h
  split at h
  · cases h
  · rename_i hret
    refine ⟨hret, ?_⟩
    cases r with
    | ok written =>
      simp only [Option.ite_none_right_eq_some, Option.some.injEq] at h
      exact .inl ⟨written, rfl, h.1.1, h.1.2, h.2.symm⟩
    | error errno =>
      cases hs : errno.soft with
      | true =>
        simp only [hs, if_true, Option.some.injEq] at h
        exact .inr (.inl ⟨errno, rfl, hs, h.symm⟩)
      | false =>
        simp only [hs, Bool.false_eq_true, if_false, Option.some.injEq] at h
        exact .inr (.inr ⟨errno, rfl, hs, h.symm⟩)

theorem Sending.calls_step (h : s.step len r = some t) : t.calls = s.calls ++ [⟨len - s.toWrite, s.toWrite, r⟩] := by
  obtain ⟨-, ⟨_, -, -, -, rfl⟩ | ⟨_, -, -, rfl⟩ | ⟨_, -, -, rfl⟩⟩ := step_cases h
  all_goals rfl

/-- The bytes of a call are taken from where the loop stands. -/
theorem Sending.sent_step (h : s.step len r = some t) :
    t.sent data = s.sent data ++ (data.drop (len - s.toWrite).toNat).take (count r) := by
  rw [sent, calls_step h, List.flatMap_append, List.flatMap_singleton]
  cases r with
  | ok written => rfl
  | error errno => simp [SendCall.bytes, count, sent]

/-- In range, the subtraction is exact. -/
theorem subtract_eq {a b : ℤ} (h0 : -2 ^ 31 ≤ a - b) (h1 : a - b < 2 ^ 31) : Sending.subtract a b = a - b := by
  unfold Sending.subtract
  rw [Int.bmod_eq_of_le] <;> omega

theorem loop_ret_none {toWrite : ℤ} {calls : List SendCall} : (Sending.loop len toWrite calls).ret = none ↔ 0 < toWrite := by
  unfold Sending.loop
  split <;> simp [*]

/-- The loop ends once nothing is left, and returns the length. -/
theorem loop_ret_some {toWrite v : ℤ} {calls : List SendCall} :
    (Sending.loop len toWrite calls).ret = some v ↔ toWrite ≤ 0 ∧ v = toInt len := by
  unfold Sending.loop
  dsimp only
  split
  · simp only [reduceCtorEq, false_iff]
    omega
  · rename_i hle
    rw [Option.some.injEq]
    exact ⟨fun h => ⟨not_lt.1 hle, h.symm⟩, fun h => h.2.symm⟩

/-- The call a turn makes ends where the buffer does. -/
theorem Sending.inside_step (h : s.step len r = some t) (hin : ∀ c ∈ s.calls, 0 ≤ c.offset ∧ c.offset + c.count ≤ len)
    (h0 : 0 ≤ len - s.toWrite) : ∀ c ∈ t.calls, 0 ≤ c.offset ∧ c.offset + c.count ≤ len := by
  intro c hc
  rw [calls_step h] at hc
  rcases List.mem_append.1 hc with hc | hc
  · exact hin c hc
  · obtain rfl := List.mem_singleton.1 hc
    refine ⟨h0, ?_⟩
    dsimp only
    omega

/-! ## A length that fits in `to_write` -/

/-- The state after the results `rs`. -/
structure Sound (len : ℕ) (rs : List (Except Errno ℕ)) (s : Sending) : Prop where
  running : s.ret = none → s.toWrite = len - accepted rs + blocked rs ∧ accepted rs < len
  inside : ∀ c ∈ s.calls, 0 ≤ c.offset ∧ c.offset + c.count ≤ len
  le : accepted rs ≤ len
  sent : ∀ data : Bytes, s.sent data = data.take (accepted rs)
  returned : ∀ v, s.ret = some v → (v = len ∧ accepted rs = len) ∨
    (v = -1 ∧ ∃ c ∈ s.calls.getLast?, ∃ e, c.result = .error e ∧ e.soft = false)

theorem Sound.init (h1 : 1 ≤ len) (hlen : len < 2 ^ 31) : Sound len [] (Sending.machine len).init := by
  have hint := toInt_of_lt hlen
  have hnone : (Sending.machine len).init.ret = none := by
    refine loop_ret_none.2 ?_
    omega
  refine ⟨fun _ => ⟨?_, ?_⟩, nofun, Nat.zero_le _, fun data => ?_, fun v hv => absurd (hnone.symm.trans hv) nofun⟩
  · have htw : (Sending.machine len).init.toWrite = toInt len := by simp only [Sending.machine, Sending.loop]
    rw [htw, hint]
    simp [accepted, blocked]
  · exact h1
  · simp [accepted, Sending.sent, Sending.machine, Sending.loop]

/-- A call that takes bytes of the data keeps what has been sent a beginning of it. -/
theorem Sound.step (hlen : len < 2 ^ 31) (hi : Sound len rs s) (hd : Deliverable len (rs ++ [r]))
    (h : s.step len r = some t) : Sound len (rs ++ [r]) t := by
  obtain ⟨hpair, hle⟩ := (if_pos hlen).mp hd
  have hint := toInt_of_lt hlen
  have hblocked := (if_pos hlen).mp hd.of_concat
  have hsent : ∀ data : Bytes, t.sent data = _ := fun data => Sending.sent_step h
  obtain ⟨hret, hcases⟩ := Sending.step_cases h
  obtain ⟨htw, hlt⟩ := hi.running hret
  have hin := Sending.inside_step h hi.inside (by omega)
  rcases hcases with ⟨written, rfl, h1, hw, ht⟩ | ⟨errno, rfl, hs, ht⟩ | ⟨errno, rfl, hs, ht⟩
  · -- nothing has blocked before
    have h0 : blocked rs = 0 := by
      by_contra hne
      obtain ⟨b, hb, hblocks⟩ := List.countP_pos_iff.1 (Nat.pos_of_ne_zero hne)
      have := (List.pairwise_append.1 hpair).2.2 b hb _ (List.mem_singleton_self _) hblocks
      simp only [count] at this
      omega
    have hacc : accepted (rs ++ [.ok written]) = accepted rs + written := accepted_concat
    have hblk : blocked (rs ++ [.ok written]) = 0 := by rw [blocked_concat, h0]; rfl
    have hsub : Sending.subtract s.toWrite written = s.toWrite - written := subtract_eq (by omega) (by omega)
    rw [hsub] at ht
    subst ht
    refine ⟨fun hn => ?_, hin, by omega, fun data => ?_, fun v hv => ?_⟩
    · have := loop_ret_none.1 hn
      refine ⟨?_, ?_⟩
      · simp only [Sending.loop]
        omega
      · omega
    · have hoff : (len - s.toWrite).toNat = accepted rs := by omega
      rw [hsent, hi.sent, hoff, hacc, List.take_add, count]
    · obtain ⟨hle', hv⟩ := loop_ret_some.1 hv
      exact .inl ⟨hv.trans hint, by omega⟩
  · have hacc : accepted (rs ++ [.error errno]) = accepted rs := accepted_concat
    have hblk : blocked (rs ++ [.error errno]) = blocked rs + 1 := by simp [blocked_concat, blocks, hs]
    have hsub : Sending.subtract s.toWrite (-1) = s.toWrite + 1 := subtract_eq (by omega) (by omega)
    rw [hsub] at ht
    subst ht
    refine ⟨fun hn => ⟨?_, by omega⟩, hin, by omega, fun data => ?_, fun v hv => ?_⟩
    · simp only [Sending.loop]
      omega
    · rw [hsent, hi.sent, hacc]
      simp [count]
    · have := (loop_ret_some.1 hv).1
      omega
  · have hacc : accepted (rs ++ [.error errno]) = accepted rs := accepted_concat
    subst ht
    refine ⟨nofun, hin, by omega, fun data => ?_, fun v hv => .inr ⟨(Option.some.inj hv).symm, ?_⟩⟩
    · rw [hsent, hi.sent, hacc]
      simp [count]
    · exact ⟨⟨len - s.toWrite, s.toWrite, .error errno⟩, by simp, errno, rfl, hs⟩

/-- What the invariant says of one text. -/
theorem Sound.delivers (h1 : 1 ≤ data.length) (hlen : data.length < 2 ^ 31) (hd : Deliverable data.length rs)
    (hi : Sound data.length rs s) : Delivers data s := by
  have hint := toInt_of_lt hlen
  have hle := ((if_pos hlen).mp hd).2
  refine ⟨hi.inside, fun hn => ?_, ?_, fun hv => ?_, fun hv => ?_⟩
  · have := hi.running hn
    omega
  · rw [hi.sent]
    exact List.take_prefix _ _
  · rcases hi.returned _ hv with ⟨-, hall⟩ | ⟨hneg, -⟩
    · rw [hi.sent, hall, List.take_length]
    · omega
  · rcases hi.returned _ hv with ⟨hneg, -⟩ | ⟨-, hlast⟩
    · omega
    · exact hlast

/-! ## A length that does not -/

/-- The state after the results `rs`, if nothing has been accepted. -/
structure Beyond (len : ℕ) (rs : List (Except Errno ℕ)) (s : Sending) : Prop where
  running : s.ret = none → s.toWrite = toInt len + blocked rs
  inside : ∀ c ∈ s.calls, 0 ≤ c.offset ∧ c.offset + c.count ≤ len
  silent : ∀ data : Bytes, s.sent data = []
  returned : ∀ v, s.ret = some v → v = -1 ∧ ∃ c ∈ s.calls.getLast?, ∃ e, c.result = .error e ∧ e.soft = false

theorem Beyond.init (h0 : 0 < toInt len) : Beyond len [] (Sending.machine len).init := by
  have hnone : (Sending.machine len).init.ret = none := loop_ret_none.2 h0
  have htw : (Sending.machine len).init.toWrite = toInt len := by simp only [Sending.machine, Sending.loop]
  refine ⟨fun _ => ?_, nofun, fun data => ?_, fun v hv => absurd (hnone.symm.trans hv) nofun⟩
  · rw [htw]
    simp [blocked]
  · simp [Sending.sent, Sending.machine, Sending.loop]

/-- A call that takes nothing keeps it: it would block, or fails for good. -/
theorem Beyond.step (hlen : ¬ len < 2 ^ 31) (hi : Beyond len rs s) (hd : Deliverable len (rs ++ [r]))
    (h : s.step len r = some t) : Beyond len (rs ++ [r]) t := by
  obtain ⟨h0, hacc, hmax⟩ := (if_neg hlen).mp hd
  have hmax' := ((if_neg hlen).mp hd.of_concat).2.2
  have hsent : ∀ data : Bytes, t.sent data = _ := fun data => Sending.sent_step h
  rw [accepted_concat] at hacc
  have hcount : count r = 0 := by omega
  obtain ⟨hret, hcases⟩ := Sending.step_cases h
  have htw := hi.running hret
  have hin := Sending.inside_step h hi.inside (by omega)
  have hsilent : ∀ data : Bytes, t.sent data = [] := fun data => by rw [hsent, hi.silent, hcount]; rfl
  rcases hcases with ⟨written, rfl, h1, hw, ht⟩ | ⟨errno, rfl, hs, ht⟩ | ⟨errno, rfl, hs, ht⟩
  · simp only [count] at hcount
    omega
  · have hblk : blocked (rs ++ [.error errno]) = blocked rs + 1 := by simp [blocked_concat, blocks, hs]
    have hsub : Sending.subtract s.toWrite (-1) = s.toWrite + 1 := subtract_eq (by omega) (by omega)
    rw [hsub] at ht
    subst ht
    refine ⟨fun hn => ?_, hin, hsilent, fun v hv => ?_⟩
    · simp only [Sending.loop]
      omega
    · have := (loop_ret_some.1 hv).1
      omega
  · subst ht
    refine ⟨nofun, hin, hsilent, fun v hv => ⟨(Option.some.inj hv).symm, ?_⟩⟩
    exact ⟨⟨len - s.toWrite, s.toWrite, .error errno⟩, by simp, errno, rfl, hs⟩

theorem Beyond.delivers (hlen : ¬ data.length < 2 ^ 31) (hd : Deliverable data.length rs) (hi : Beyond data.length rs s) :
    Delivers data s := by
  obtain ⟨h0, -, hmax⟩ := (if_neg hlen).mp hd
  refine ⟨hi.inside, fun hn => ?_, ?_, fun hv => ?_, fun hv => (hi.returned _ hv).2⟩
  · have := hi.running hn
    omega
  · rw [hi.silent]
    exact List.nil_prefix
  · have := (hi.returned _ hv).1
    omega

/-! ## Both directions -/

/-- The invariant of a length below 2 GiB, along every run whose results can deliver it. -/
theorem sound_of_run (h1 : 1 ≤ len) (hlen : len < 2 ^ 31)
    (h : (Sending.machine len).Run anyStep (Sending.machine len).init rs s) (hd : Deliverable len rs) : Sound len rs s := by
  induction h with
  | nil => exact .init h1 hlen
  | snoc _ _ hs ih => exact (ih hd.of_concat).step hlen hd hs

theorem beyond_of_run (hlen : ¬ len < 2 ^ 31)
    (h : (Sending.machine len).Run anyStep (Sending.machine len).init rs s) (hd : Deliverable len rs) : Beyond len rs s := by
  induction h with
  | nil => exact .init ((if_neg hlen).mp hd).1
  | snoc _ _ hs ih => exact (ih hd.of_concat).step hlen hd hs

/-- What a moment of a call keeps to, the moments before it have kept to. -/
theorem Delivers.of_step (hd : Delivers data t) (h : s.step data.length r = some t) : Delivers data s := by
  have hret := (Sending.step_cases h).1
  have hcalls := Sending.calls_step h
  have hlast := hd.inside ⟨data.length - s.toWrite, s.toWrite, r⟩ (by simp [hcalls])
  refine ⟨fun c hc => hd.inside c (by simp [hcalls, hc]), fun _ => hlast.1, ?_, ?_, ?_⟩
  · refine List.IsPrefix.trans ?_ hd.inOrder
    rw [Sending.sent_step h]
    exact List.prefix_append _ _
  · exact fun hv => absurd (hret.symm.trans hv) nofun
  · exact fun hv => absurd (hret.symm.trans hv) nofun

/-- A loop that has ended has sent as many bytes as the buffer has. -/
theorem length_of_ended {toWrite : ℤ} {calls : List SendCall} (h : toWrite ≤ 0)
    (ht : ∀ data : Bytes, data.length = len → Delivers data (Sending.loop len toWrite calls)) :
    ((Sending.loop len toWrite calls).sent (List.replicate len 0)).length = len := by
  have hret : (Sending.loop len toWrite calls).ret = some (toInt (List.replicate len (0 : Byte)).length) := by
    apply loop_ret_some.2
    rw [List.length_replicate]
    exact ⟨h, rfl⟩
  rw [(ht _ List.length_replicate).complete hret, List.length_replicate]

/-- Bytes from before the ones already sent are not the ones that follow them. -/
theorem resent_not_prefix {a b n written : ℕ} (hb : 0 < b) (hba : b ≤ a) (hw : 0 < written) :
    ¬ (List.replicate a (1 : Byte) ++ List.replicate n 0).take a ++
        ((List.replicate a (1 : Byte) ++ List.replicate n 0).drop (a - b)).take written <+:
      List.replicate a (1 : Byte) ++ List.replicate n 0 := by
  obtain ⟨b, rfl⟩ := Nat.exists_eq_succ_of_ne_zero hb.ne'
  obtain ⟨w, rfl⟩ := Nat.exists_eq_succ_of_ne_zero hw.ne'
  have htake : (List.replicate a (1 : Byte) ++ List.replicate n 0).take a = List.replicate a 1 :=
    List.take_left' List.length_replicate
  have hdrop : (List.replicate a (1 : Byte) ++ List.replicate n 0).drop (a - (b + 1)) =
      1 :: (List.replicate b 1 ++ List.replicate n 0) := by
    have hback : a - (a - (b + 1)) = b + 1 := by omega
    rw [List.drop_append_of_le_length (by simp), List.drop_replicate, hback]
    rfl
  intro hp
  rw [htake, Nat.succ_eq_add_one, hdrop, List.prefix_append_right_inj] at hp
  have hmem : (1 : Byte) ∈ List.replicate n (0 : Byte) := hp.subset (List.mem_cons_self ..)
  exact absurd (List.eq_of_mem_replicate hmem) (by decide)

/-- A turn that keeps delivery keeps the condition. -/
theorem Sound.deliverable_step (hlen : len < 2 ^ 31) (hi : Sound len rs s) (hd : Deliverable len rs)
    (h : s.step len r = some t) (ht : ∀ data : Bytes, data.length = len → Delivers data t) :
    Deliverable len (rs ++ [r]) := by
  obtain ⟨hpair, hle⟩ := (if_pos hlen).mp hd
  have hint := toInt_of_lt hlen
  obtain ⟨hret, hcases⟩ := Sending.step_cases h
  obtain ⟨htw, hlt⟩ := hi.running hret
  refine (if_pos hlen).mpr ?_
  rw [accepted_concat, blocked_concat, List.pairwise_append]
  rcases hcases with ⟨written, rfl, h1, hw, -⟩ | ⟨errno, rfl, hs, rfl⟩ | ⟨errno, rfl, hs, -⟩
  · have h0 : blocked rs = 0 := by
      by_contra hne
      have hsplit : (List.replicate (accepted rs) (1 : Byte) ++ List.replicate (len - accepted rs) 0).length = len := by
        rw [List.length_append, List.length_replicate, List.length_replicate]
        omega
      have hp := (ht _ hsplit).inOrder
      have hoff : (len - s.toWrite).toNat = accepted rs - blocked rs := by omega
      rw [Sending.sent_step h, hi.sent, hoff] at hp
      exact resent_not_prefix (Nat.pos_of_ne_zero hne) hle h1 hp
    refine ⟨⟨hpair, List.pairwise_singleton _ _, fun b hb _ _ hblocks => ?_⟩, ?_⟩
    · exact absurd hblocks (List.countP_eq_zero.1 h0 b hb)
    · rw [h0]
      exact Nat.zero_le _
  · have hcount : count (.error errno) = 0 := rfl
    refine ⟨⟨hpair, List.pairwise_singleton _ _, fun b hb r' hr' _ => ?_⟩, ?_⟩
    · rw [List.mem_singleton.1 hr', hcount]
    · -- one byte before the buffer, or an overflow
      have hdata := ht (List.replicate len 0) List.length_replicate
      simp only [blocks, hs, if_true, hcount]
      by_contra hgt
      have hpos : 0 < Sending.subtract s.toWrite (-1) ∨ Sending.subtract s.toWrite (-1) ≤ 0 := lt_or_ge _ _
      rcases hpos with hpos | hneg
      · have hnext := hdata.next (loop_ret_none.2 hpos)
        simp only [Sending.loop, List.length_replicate] at hnext
        have hrange : s.toWrite - (-1) < 2 ^ 31 ∨ s.toWrite - (-1) = 2 ^ 31 := by omega
        rcases hrange with hlt | heq
        · rw [subtract_eq (by omega) hlt] at hnext
          omega
        · rw [Sending.subtract, heq] at hpos
          exact absurd hpos (by decide)
      · have hlength := length_of_ended hneg ht
        rw [Sending.sent_step h, hi.sent, hcount, List.take_zero, List.append_nil, List.length_take,
          List.length_replicate] at hlength
        omega
  · have hcount : count (.error errno) = 0 := rfl
    refine ⟨⟨hpair, List.pairwise_singleton _ _, fun b hb r' hr' _ => ?_⟩, ?_⟩
    · rw [List.mem_singleton.1 hr', hcount]
    · simp only [blocks, hs, hcount, Bool.false_eq_true, if_false]
      omega

theorem Beyond.deliverable_step (hlen : ¬ len < 2 ^ 31) (hi : Beyond len rs s) (hd : Deliverable len rs)
    (h : s.step len r = some t) (ht : ∀ data : Bytes, data.length = len → Delivers data t) :
    Deliverable len (rs ++ [r]) := by
  obtain ⟨h0, hacc, hmax⟩ := (if_neg hlen).mp hd
  obtain ⟨hret, hcases⟩ := Sending.step_cases h
  have htw := hi.running hret
  refine (if_neg hlen).mpr ⟨h0, ?_⟩
  rw [accepted_concat, blocked_concat]
  rcases hcases with ⟨written, rfl, h1, hw, -⟩ | ⟨errno, rfl, hs, rfl⟩ | ⟨errno, rfl, hs, -⟩
  · -- the first bytes sent are not the first bytes
    exfalso
    obtain ⟨n, hn⟩ : ∃ n, len = n + 1 := ⟨len - 1, by omega⟩
    obtain ⟨o, ho⟩ : ∃ o, (len - s.toWrite).toNat = o + 1 := ⟨(len - s.toWrite).toNat - 1, by omega⟩
    obtain ⟨w, rfl⟩ := Nat.exists_eq_add_of_le' h1
    have hp := (ht ((1 : Byte) :: List.replicate n 0) (by rw [hn, List.length_cons, List.length_replicate])).inOrder
    have hrest : List.replicate (n - o) (0 : Byte) = 0 :: List.replicate (n - o - 1) 0 := by
      rw [← List.replicate_succ]
      congr
      omega
    rw [Sending.sent_step h, hi.silent, ho, List.nil_append, List.drop_succ_cons, List.drop_replicate, hrest, count,
      List.take_succ_cons, List.cons_prefix_cons] at hp
    exact absurd hp.1 (by decide)
  · have hcount : count (.error errno) = 0 := rfl
    simp only [blocks, hs, if_true, hcount]
    refine ⟨by omega, ?_⟩
    by_contra hge
    have heq : s.toWrite - (-1) = 2 ^ 31 := by omega
    have hneg : Sending.subtract s.toWrite (-1) ≤ 0 := by
      rw [Sending.subtract, heq]
      decide
    have hlength := length_of_ended hneg ht
    rw [Sending.sent_step h, hi.silent, hcount, List.take_zero, List.append_nil, List.length_nil] at hlength
    omega
  · have hcount : count (.error errno) = 0 := rfl
    simp only [blocks, hs, hcount, Bool.false_eq_true, if_false]
    omega

theorem deliverable_nil (ht : ∀ data : Bytes, data.length = len → Delivers data (Sending.machine len).init) :
    Deliverable len [] := by
  unfold Deliverable
  split
  · exact ⟨List.Pairwise.nil, le_refl _⟩
  · refine ⟨?_, rfl, ?_⟩
    · by_contra hneg
      -- the loop is not entered, and `len` is returned
      have hlength := length_of_ended (not_lt.1 hneg) ht
      simp only [Sending.sent, Sending.loop, List.flatMap_nil, List.length_nil] at hlength
      omega
    · have := toInt_lt len
      simpa [blocked] using this

/-- **The converse**: a run that delivers every text had such results. -/
theorem deliverable_of_run (h1 : 1 ≤ len) (h : (Sending.machine len).Run anyStep (Sending.machine len).init rs s)
    (ht : ∀ data : Bytes, data.length = len → Delivers data s) : Deliverable len rs := by
  induction h with
  | nil => exact deliverable_nil ht
  | snoc hrun _ hs ih =>
    have hd := ih fun data hdata => by subst hdata; exact (ht data rfl).of_step hs
    by_cases hlen : len < 2 ^ 31
    · exact (sound_of_run h1 hlen hrun hd).deliverable_step hlen hd hs ht
    · exact (beyond_of_run hlen hrun hd).deliverable_step hlen hd hs ht

/-- **When `socket_send` delivers the buffer.** -/
theorem delivers_iff (h1 : 1 ≤ len) (h : (Sending.machine len).Run anyStep (Sending.machine len).init rs s) :
    (∀ data : Bytes, data.length = len → Delivers data s) ↔ Deliverable len rs := by
  refine ⟨deliverable_of_run h1 h, fun hd data hdata => ?_⟩
  subst hdata
  by_cases hlen : data.length < 2 ^ 31
  · exact (sound_of_run h1 hlen h hd).delivers h1 hlen hd
  · exact (beyond_of_run hlen h hd).delivers hlen hd

/-- Three bytes, two accepted at once and two would-block results after them. -/
theorem delivers_two_then_blocks : ∃ s,
    (Sending.machine 3).Run anyStep (Sending.machine 3).init [.ok 2, .error .eagain, .error .einprogress] s ∧
    ∀ data : Bytes, data.length = 3 → Delivers data s := by
  have hrun : (Sending.machine 3).Run anyStep (Sending.machine 3).init [.ok 2, .error .eagain, .error .einprogress] _ :=
    Machine.Run.of_exec rfl
  refine ⟨_, hrun, (delivers_iff (by decide) hrun).2 ?_⟩
  exact (if_pos (by decide)).mpr ⟨by decide, by decide⟩

/-- The first `send` would block: the next one is asked for the byte before the buffer and
all of the buffer. -/
theorem sends_from_before : ∃ s, (Sending.machine 3).Run anyStep (Sending.machine 3).init [.error .eagain, .ok 1] s ∧
    ⟨-1, 4, .ok 1⟩ ∈ s.calls ∧ ¬ Delivers (bytes "abc") s := by
  have hrun : (Sending.machine 3).Run anyStep (Sending.machine 3).init [.error .eagain, .ok 1] _ := Machine.Run.of_exec rfl
  refine ⟨_, hrun, by decide, fun hd => ?_⟩
  have := (hd.inside ⟨-1, 4, .ok 1⟩ (by decide)).1
  exact absurd this (by decide)

/-! ## In the server -/

/-- Where the server is in `socket_send`, or after it. -/
def Sending.pc (i len : ℕ) (s : Sending) : Pc :=
  match s.ret with
  | none => .send i len s.toWrite
  | some v => if v = -1 then .close i else .serve (i + 1)

theorem pc_loop {i : ℕ} {toWrite : ℤ} {calls : List SendCall} (hlen : len < 2 ^ 31) :
    (Sending.loop len toWrite calls).pc i len = sendLoop i len toWrite := by
  have hint := toInt_of_lt hlen
  have hne : toInt len ≠ -1 := by omega
  unfold Sending.loop sendLoop Sending.pc
  by_cases h : 0 < toWrite
  · simp only [if_pos h]
  · simp only [if_neg h, if_neg hne]

/-- **A turn in the server is a turn of the loop**, where the range starts in the buffer. -/
theorem sent_eq_step {u : Server} {i fd : ℕ} {calls : List SendCall} {toWrite : ℤ} (hlen : len < 2 ^ 31 - 1)
    (h0 : 0 < toWrite) (hin : toWrite ≤ len) (hr : r ≠ .ok 0) :
    (u.sent i fd len toWrite r).map (fun v => v.pc) = (Sending.step len ⟨toWrite, none, calls⟩ r).map (Sending.pc i len) := by
  have hoff : (0 : ℤ) ≤ len - toWrite := by omega
  unfold Server.sent Sending.step
  dsimp only
  rw [if_pos hoff]
  cases r with
  | ok k =>
    have hk : 1 ≤ k := Nat.pos_of_ne_zero fun h => hr (by rw [h])
    by_cases hle : (k : ℤ) ≤ toWrite
    · have hsub : Sending.subtract toWrite k = toWrite - k := subtract_eq (by omega) (by omega)
      dsimp only
      rw [if_pos hle, if_pos ⟨hk, hle⟩, hsub, Option.map_some, Option.map_some, pc_loop (by omega)]
    · dsimp only
      rw [if_neg hle, if_neg fun h => hle h.2]
      rfl
  | error e =>
    have hsub : Sending.subtract toWrite (-1) = toWrite - (-1) := subtract_eq (by omega) (by omega)
    dsimp only
    cases e.soft with
    | true => rw [if_pos rfl, if_pos rfl, hsub, Option.map_some, Option.map_some, pc_loop (by omega)]
    | false => rfl

end EspNetwork.Tcp
