import EspNetwork.Proof.ReceiverLog
import EspNetwork.Proof.SenderReceiver
import EspNetwork.Spec.AeadLink

/-!
# The AEAD demo over a network

The network may lose, delay, reorder and duplicate what the sender sends.

* `Sender.Ok`: the datagrams sent so far carry the counters 1, 2, .. in order.
* `link_delivers`: **the receiver prints one line for each datagram that arrives**, in the
  order of arrival: the datagram's own nonce and ciphertext, and the plaintext.
* `nonces_nodup_iff`: **no nonce is used twice**, up to the 2^64th datagram and no longer.
-/

namespace EspNetwork.Aead

open CLib Lts

variable {p : Provider} {key m : Bytes} {s t : Sender p.sizes} {sent : Int}
  {w : Net (Sender p.sizes) (Statics p.sizes × List Log) Bytes} {ls : List (NetLabel Int)}

/-! ## The sender -/

namespace Sender

/-- **A pass** sends the next datagram, or ends the loop. -/
theorem pass_cases (hs : (machine p key m).step s sent = some t) : s.running = true ∧
    ((∃ pkt c nh ch, sendPass p key s.st s.counter m sent = some (t.st, .sent pkt c nh ch) ∧
      t.counter = s.counter + 1 ∧ t.running = true ∧ emits p key m s sent = some pkt) ∨
    (∃ log, sendPass p key s.st s.counter m sent = some (t.st, log) ∧ t.running = false ∧
      emits p key m s sent = none)) := by
  obtain ⟨⟨t', out⟩, hpass, rfl⟩ := Option.map_eq_some_iff.1 hs
  have hemits : emits p key m s sent = out := by rw [emits, hpass]; rfl
  unfold pass at hpass
  split at hpass
  · rename_i hrun
    refine ⟨hrun, ?_⟩
    obtain ⟨⟨st, log⟩, hp, he⟩ := Option.map_eq_some_iff.1 hpass
    cases log with
    | sent pkt c nh ch =>
      obtain ⟨rfl, rfl⟩ := Prod.mk.inj he
      exact .inl ⟨pkt, c, nh, ch, hp, rfl, rfl, hemits⟩
    | _ =>
      obtain ⟨rfl, rfl⟩ := Prod.mk.inj he
      exact .inr ⟨_, hp, rfl, hemits⟩
  · cases hpass

/-- What the sender has sent so far: the counters from 1 on. -/
structure Ok (Q : UInt64 → Bytes → Prop) (s : Sender p.sizes) (pkts : List Bytes) : Prop where
  padded : Padded s.st
  counter (h : s.running = true) : s.counter = UInt64.ofNat (pkts.length + 1)
  packets (k : ℕ) (pkt : Bytes) (h : pkts[k]? = some pkt) : Q (UInt64.ofNat (k + 1)) pkt

theorem ok_init (Q : UInt64 → Bytes → Prop) (h8 : 8 ≤ p.sizes.nonceLen) (key m : Bytes) :
    Ok Q (machine p key m).init [] where
  padded := padded_of_reach h8 (Machine.Reach.init (M := sendLoop p key))
  counter _ := rfl
  packets k pkt h := by cases h

theorem Ok.step {Q : UInt64 → Bytes → Prop} {pkts : List Bytes} (h : Ok Q s pkts) (h8 : 8 ≤ p.sizes.nonceLen)
    (hQ : ∀ st' pkt c nh ch, Padded s.st → sendPass p key s.st s.counter m sent = some (st', .sent pkt c nh ch) →
      Q s.counter pkt)
    (hs : (machine p key m).step s sent = some t) : Ok Q t (pkts ++ (emits p key m s sent).toList) := by
  obtain ⟨hrun, ⟨pkt, c, nh, ch, hp, hc, -, he⟩ | ⟨log, hp, hend, he⟩⟩ := pass_cases hs
  · rw [he]
    refine ⟨sendPass_padded h8 h.padded hp, fun _ => ?_, ?_⟩
    · rw [hc, h.counter hrun, List.length_append]
      simp
    · intro k pkt' hk
      by_cases hlt : k < pkts.length
      · rw [List.getElem?_append_left hlt] at hk
        exact h.packets k pkt' hk
      · -- the datagram just sent
        have hlen := (List.getElem?_eq_some_iff.1 hk).1
        simp only [Option.toList_some, List.length_append, List.length_singleton] at hlen
        obtain rfl : k = pkts.length := by omega
        simp only [Option.toList_some, List.getElem?_concat_length, Option.some.injEq] at hk
        subst hk
        rw [← h.counter hrun]
        exact hQ _ _ _ _ _ h.padded hp
  · rw [he]
    refine ⟨sendPass_padded h8 h.padded hp, fun hr => by simp [hend] at hr, ?_⟩
    simpa using h.packets

theorem ok_of_run {Q : UInt64 → Bytes → Prop} (h8 : 8 ≤ p.sizes.nonceLen)
    (hQ : ∀ st st' counter sent pkt c nh ch, Padded st →
      sendPass p key st counter m sent = some (st', .sent pkt c nh ch) → Q counter pkt)
    (h : (link p key m).Run anyStep (link p key m).init ls w) : Ok Q w.snd w.sent := by
  refine Net.sent_invariant (P := fun s pkts => Ok Q s pkts) h (ok_init Q h8 key m) ?_
  intro s pkts sent t hok hs
  exact hok.step h8 (fun st' pkt c nh ch hpad hp => hQ _ st' _ _ pkt c nh ch hpad hp) hs

end Sender

/-! ## Nonces -/

theorem toNat_ofNat_succ (k : ℕ) : (UInt64.ofNat (k + 1)).toNat = (k + 1) % 2 ^ 64 := UInt64.toNat_ofNat'

/-- **No nonce is used twice**, in every run, exactly as long as no more than 2^64 datagrams
have been sent: then the counter is back at 1. -/
theorem nonces_nodup_iff (L : Libs) (i : Impl) (key m : Bytes) (ls : List (NetLabel Int))
    (w : Net (Sender (L.provider i).sizes) (Statics (L.provider i).sizes × List Log) Bytes)
    (h : (link (L.provider i) key m).Run anyStep (link (L.provider i) key m).init ls w) :
    (w.sent.map fun pkt => pkt.take (L.provider i).sizes.nonceLen).Nodup ↔ w.sent.length ≤ 2 ^ 64 := by
  have h8 : 8 ≤ (L.provider i).sizes.nonceLen := by rw [L.provider_sizes]; exact i.nonceLen_ge
  have hok := Sender.ok_of_run
    (Q := fun c pkt => pkt.take (L.provider i).sizes.nonceLen = nonceOf (L.provider i).sizes c) h8 (by
      intro st st' counter sent pkt c nh ch hpad hp
      obtain ⟨enc, -, -, -, rfl, -⟩ := sendPass_sent h8 hpad hp
      exact List.take_left' (length_nonceOf h8 counter)) h
  -- the nonce of the datagram with number `k`
  have hnonce : ∀ k, k < w.sent.length → (w.sent.map fun pkt => pkt.take (L.provider i).sizes.nonceLen)[k]? =
      some (nonceOf (L.provider i).sizes (UInt64.ofNat (k + 1))) := by
    intro k hk
    rw [List.getElem?_map, List.getElem?_eq_getElem hk, Option.map_some,
      hok.packets k _ (List.getElem?_eq_getElem hk)]
  rw [List.nodup_iff_getElem?_ne_getElem?]
  constructor
  · intro hnd
    by_contra hlen
    -- the first nonce and that of the datagram 2^64 places behind
    have hwrap : UInt64.ofNat (0 + 1) = UInt64.ofNat (2 ^ 64 + 1) := by
      apply UInt64.toNat_inj.1
      rw [toNat_ofNat_succ, toNat_ofNat_succ]
      norm_num
    refine hnd 0 (2 ^ 64) (by norm_num) (by rw [List.length_map]; omega) ?_
    rw [hnonce 0 (by omega), hnonce (2 ^ 64) (by omega), hwrap]
  · intro hlen a b hab hb heq
    rw [List.length_map] at hb
    rw [hnonce a (by omega), hnonce b hb, Option.some.injEq] at heq
    have hc := congrArg UInt64.toNat (nonceOf_injective heq)
    rw [toNat_ofNat_succ, toNat_ofNat_succ] at hc
    omega

/-! ## What arrives is printed -/

/-- The line of the log for a datagram that carries `m`. -/
def line (z : Sizes) (m pkt : Bytes) : Log :=
  .plaintext (hexText (pkt.take z.nonceLen)) (hexText (pkt.drop z.nonceLen)) (cstr m)

/-- The receiver's pass over a datagram of the sender, from any state. -/
def Prints (p : Provider) (key m pkt : Bytes) : Prop :=
  ∀ rst : Statics p.sizes, ∃ rst', receivePass p key rst pkt = some (rst', line p.sizes m pkt)

theorem Delivered.prints (h8 : 8 ≤ p.sizes.nonceLen) (hm : m.length + p.sizes.tagLen ≤ 511) {counter : UInt64}
    {pkt : Bytes} (h : ∀ rst, Delivered p key rst counter m pkt) : Prints p key m pkt := by
  intro rst
  obtain ⟨-, hlong, -, hsplit, -, rst', nh, ch, hpass, -⟩ := h rst
  obtain ⟨hlog, htext⟩ := receivePass_hexes h8 hpass
  have hlen := hsplit
  rw [List.length_drop] at hlen
  have hfits : Fits p.sizes pkt := ⟨hlong, by omega⟩
  rw [if_pos hfits] at htext
  rw [if_pos hfits.1, Log.hexes, Option.some.injEq, Prod.mk.injEq, htext] at hlog
  obtain ⟨rfl, rfl⟩ := hlog
  exact ⟨rst', hpass⟩

/-- The receive loop over such datagrams. -/
theorem logs_of_prints {ds : List Bytes} {r : Statics p.sizes × List Log} (hds : ∀ d ∈ ds, Prints p key m d)
    (h : (receiveLoop p key).Run anyStep (receiveLoop p key).init ds r) : r.2 = ds.map (line p.sizes m) := by
  induction h with
  | nil => rfl
  | @snoc ds s d t hrun _ hs ih =>
    obtain ⟨rst', hpass⟩ := hds d (by simp) s.1
    rw [receiveLoop_step hpass] at hs
    obtain rfl := Option.some.inj hs
    have hprev := ih fun d' hd' => hds d' (List.mem_append_left _ hd')
    simp only [List.map_append, hprev, List.map_singleton]

/-- **What the receiver prints** over any run of sender, network and receiver, for every
provider whose library inverts itself and every plaintext whose ciphertext fits the
printed line: for each datagram that has arrived, in the order of arrival and as often as
it has arrived, its nonce, its ciphertext and the plaintext; and no datagram of the
sender, whenever it arrives, stops the receiver. -/
theorem link_delivers (L : Libs) (i : Impl) (hL : L.Inverts i) (key m : Bytes)
    (hm : m.length + (L.provider i).sizes.tagLen ≤ 511) (ls : List (NetLabel Int))
    (w : Net (Sender (L.provider i).sizes) (Statics (L.provider i).sizes × List Log) Bytes)
    (h : (link (L.provider i) key m).Run anyStep (link (L.provider i) key m).init ls w) :
    w.rcv.2 = (Net.delivered w.sent ls).map (line (L.provider i).sizes m) ∧
    ∀ k, k < w.sent.length → ∃ v, (link (L.provider i) key m).step w (.deliver k) = some v := by
  have hinv : (L.provider i).Inverts := Libs.inverts_provider hL
  have h8 : 8 ≤ (L.provider i).sizes.nonceLen := by rw [L.provider_sizes]; exact i.nonceLen_ge
  have h16 : (L.provider i).sizes.nonceLen ≤ 16 := by rw [L.provider_sizes]; exact i.nonceLen_le
  have hok := Sender.ok_of_run (Q := fun _ pkt => Prints (L.provider i) key m pkt) h8 (by
    intro st st' counter sent pkt c nh ch hpad hp
    obtain ⟨enc, he, hret, -, rfl, -⟩ := sendPass_sent h8 hpad hp
    exact Delivered.prints h8 hm fun rst => delivered_of_inverts hinv h8 h16 (by omega) he hret rst) h
  have hprints : ∀ d ∈ w.sent, Prints (L.provider i) key m d := by
    intro d hd
    obtain ⟨k, hk⟩ := List.mem_iff_getElem?.1 hd
    exact hok.packets k d hk
  refine ⟨logs_of_prints (fun d hd => hprints d (Net.mem_of_delivered hd)) (Net.run_receiver h), fun k hk => ?_⟩
  obtain ⟨rst', hpass⟩ := hprints w.sent[k] (List.getElem_mem hk) w.rcv.1
  have hstep := receiveLoop_step hpass
  exact ⟨_, Net.step_deliver (List.getElem?_eq_getElem hk) hstep⟩

/-- A pass that sends. -/
theorem Sender.pass_sent {st' : SendStatics p.sizes} {pkt nh ch : Bytes} {c : UInt64} (hrun : s.running = true)
    (hp : sendPass p key s.st s.counter m sent = some (st', .sent pkt c nh ch)) :
    (machine p key m).step s sent = some ⟨st', s.counter + 1, true⟩ ∧ emits p key m s sent = some pkt := by
  have hpass : pass p key m s sent = some (⟨st', s.counter + 1, true⟩, some pkt) := by
    rw [pass, if_pos hrun, hp, Option.map_some]
  exact ⟨by simp only [machine, hpass, Option.map_some], by simp only [emits, hpass, Option.bind_some]⟩

/-- With the mock provider every pass sends. -/
theorem mock_sends (key : Bytes) {s : Sender Impl.mock.sizes} (hrun : s.running = true) (hpad : Padded s.st)
    (hm : m.length + 16 ≤ 512) : ∃ t pkt, (Sender.machine (rejecting.provider .mock) key m).step s 0 = some t ∧
      Sender.emits (rejecting.provider .mock) key m s 0 = some pkt := by
  obtain ⟨c, hc⟩ := Arr.exists_store s.st.ctAndTag 0 (sealed Impl.mock.sizes (toBe 8 s.counter.toNat)
    (nonceOf Impl.mock.sizes s.counter) key m) (by rw [length_sealed, Nat.zero_add]; exact hm)
  have henc : (rejecting.provider .mock).encrypt s.st.ctAndTag 0 m (toBe 8 s.counter.toNat)
      (nonceOf Impl.mock.sizes s.counter) key = some ⟨c, m.length + 16, 0⟩ := by
    show aeadEncrypt Impl.mock.sizes s.st.ctAndTag 0 m _ _ key = _
    rw [aeadEncrypt_eq, hc]
    rfl
  obtain ⟨st', pkt, nh, ch, hp⟩ := sendPass_sends (p := rejecting.provider .mock) (by decide) hpad henc rfl hm
    (Int.le_refl 0)
  obtain ⟨hstep, hemits⟩ := Sender.pass_sent hrun hp
  exact ⟨_, pkt, hstep, hemits⟩

/-- The demo with the mock provider. -/
def mockLink : Machine (Net (Sender Impl.mock.sizes) (Statics Impl.mock.sizes × List Log) Bytes) (NetLabel Int) :=
  link (rejecting.provider .mock) (gKey Impl.mock.sizes) (bytes "Hello from ESP32!")

theorem first_sent : ∃ w pkt, mockLink.Run anyStep mockLink.init [.send 0] w ∧ w.sent = [pkt] := by
  have hpad : Padded (SendStatics.init Impl.mock.sizes) :=
    padded_of_reach (by decide) (Machine.Reach.init (M := sendLoop (rejecting.provider .mock) (gKey Impl.mock.sizes)))
  obtain ⟨t, pkt, hstep, hemits⟩ := mock_sends (gKey Impl.mock.sizes) (s := ⟨SendStatics.init _, 1, true⟩) rfl hpad
    (m := bytes "Hello from ESP32!") (by decide)
  exact ⟨_, pkt, .single trivial (Net.step_send hstep hemits), rfl⟩

/-- `nonces_nodup_iff` after the first datagram. -/
theorem nonces_nodup_iff_first : ∃ w, mockLink.Run anyStep mockLink.init [.send 0] w ∧
    (w.sent.map fun pkt => pkt.take 16).Nodup := by
  obtain ⟨w, pkt, h, hsent⟩ := first_sent
  exact ⟨w, h, (nonces_nodup_iff rejecting .mock _ _ _ w h).2 (by rw [hsent, List.length_singleton]; norm_num)⟩

/-- `link_delivers` for the first datagram, which arrives twice. -/
theorem link_delivers_twice : ∃ w pkt, mockLink.Run anyStep mockLink.init [.send 0, .deliver 0, .deliver 0] w ∧
    w.rcv.2 = [line Impl.mock.sizes (bytes "Hello from ESP32!") pkt,
      line Impl.mock.sizes (bytes "Hello from ESP32!") pkt] := by
  have hlen : (bytes "Hello from ESP32!").length + 16 ≤ 511 := by decide
  obtain ⟨w, pkt, h, hsent⟩ := first_sent
  obtain ⟨-, hnext⟩ := link_delivers rejecting .mock trivial _ _ hlen _ w h
  obtain ⟨v, hv⟩ := hnext 0 (by rw [hsent, List.length_singleton]; norm_num)
  have h1 := h.snoc trivial hv
  have hsent1 : v.sent = [pkt] := (Net.sent_deliver hv).trans hsent
  obtain ⟨-, hnext⟩ := link_delivers rejecting .mock trivial _ _ hlen _ v h1
  obtain ⟨u, hu⟩ := hnext 0 (by rw [hsent1, List.length_singleton]; norm_num)
  have h2 := h1.snoc trivial hu
  obtain ⟨hlog, -⟩ := link_delivers rejecting .mock trivial _ _ hlen _ u h2
  refine ⟨u, pkt, h2, ?_⟩
  rw [hlog, Net.sent_deliver hu, hsent1]
  rfl

end EspNetwork.Aead
