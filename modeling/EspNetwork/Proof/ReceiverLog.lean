import EspNetwork.Proof.Providers

/-!
# What the AEAD receiver logs

`bytes_to_hex` leaves its output alone when the text does not fit, and the output is static:
a ciphertext of more than 511 bytes is logged as the last shorter one.

* `bytesToHex_eq`: what `bytes_to_hex` stores.
* `receivePass_hexes`: the two texts a pass logs.
* `logs_own_bytes_iff`: **every datagram is logged with its own bytes iff no long datagram
  comes after a shorter one.**
-/

namespace EspNetwork.Aead

open CLib Lts

variable {n : Nat} {z : Sizes} {p : Provider} {key : Bytes} {st st' : Statics p.sizes} {dgram : Bytes}
  {dgrams : List Bytes} {log : Log} {s : Statics p.sizes × List Log}

/-! ## Hex texts -/

/-- A digit of base 16, in lower case. -/
def hexDigit (d : Nat) : Byte := if d < 10 then chr '0' + UInt8.ofNat d else chr 'a' + UInt8.ofNat (d - 10)

/-- Two digits for each byte. -/
def hexText (bs : Bytes) : Bytes := bs.flatMap fun b => [hexDigit (b.toNat / 16), hexDigit (b.toNat % 16)]

theorem hexText_cons (b : Byte) (bs : Bytes) :
    hexText (b :: bs) = [hexDigit (b.toNat / 16), hexDigit (b.toNat % 16)] ++ hexText bs := rfl

@[simp] theorem length_hexText (bs : Bytes) : (hexText bs).length = 2 * bs.length := by
  induction bs with
  | nil => rfl
  | cons b bs ih =>
    rw [hexText_cons, List.length_append, ih, List.length_cons]
    simp
    omega

theorem hexDigit_ne_zero {d : Nat} (hd : d < 16) : hexDigit d ≠ 0 := by
  revert d
  decide

/-- The hexadecimal text has no NUL inside. -/
theorem not_mem_hexText (bs : Bytes) : 0 ∉ hexText bs := by
  intro h
  obtain ⟨b, -, hb⟩ := List.mem_flatMap.1 h
  have hlt := b.toNat_lt
  rcases List.mem_pair.1 hb with hb | hb
  · exact hexDigit_ne_zero (by omega) hb.symm
  · exact hexDigit_ne_zero (by omega) hb.symm

/-- The table of `bytes_to_hex` holds the digits. -/
theorem hexDigits_getD {d : Nat} (hd : d < 16) : hexDigits.getD d 0 = hexDigit d := by
  revert d
  decide

theorem high_nibble (b : Byte) : (b >>> 4 &&& 0xF).toNat = b.toNat / 16 := by
  have hand : b.toNat / 16 &&& 15 = b.toNat / 16 % 16 := Nat.and_two_pow_sub_one_eq_mod (b.toNat / 16) 4
  have hlt := b.toNat_lt
  simp [Nat.shiftRight_eq_div_pow, hand]
  omega

theorem low_nibble (b : Byte) : (b &&& 0xF).toNat = b.toNat % 16 := by
  have hand : b.toNat &&& 15 = b.toNat % 16 := Nat.and_two_pow_sub_one_eq_mod b.toNat 4
  simp [hand]

/-- **The loop is one store.** -/
theorem hexLoop_eq (out : Arr n) {i : Nat} (hi : 2 * i ≤ n) (src : Bytes) :
    hexLoop out i src = out.store (2 * i) (hexText src) := by
  induction src generalizing out i with
  | nil =>
    rw [hexLoop, eq_comm, Arr.store_eq_some_iff]
    exact ⟨by simpa [hexText] using hi, by simp [hexText]⟩
  | cons b src ih =>
    have hlt := b.toNat_lt
    have hpair : (out.store (2 * i) [hexDigit (b.toNat / 16)]).bind (fun o => o.store (2 * i + 1) [hexDigit (b.toNat % 16)]) =
        out.store (2 * i) [hexDigit (b.toNat / 16), hexDigit (b.toNat % 16)] := Arr.store_append
    have hall : (out.store (2 * i) [hexDigit (b.toNat / 16), hexDigit (b.toNat % 16)]).bind
        (fun o => o.store (2 * i + 2) (hexText src)) = out.store (2 * i) (hexText (b :: src)) := Arr.store_append
    rw [hexLoop, high_nibble, low_nibble, hexDigits_getD (by omega), hexDigits_getD (by omega), ← hall, ← hpair]
    simp only [Option.bind_eq_bind]
    cases h1 : out.store (2 * i) [hexDigit (b.toNat / 16)] with
    | none => rfl
    | some o1 =>
      rw [Option.bind_some, Option.bind_some]
      cases h2 : o1.store (2 * i + 1) [hexDigit (b.toNat % 16)] with
      | none => rfl
      | some o2 =>
        have hroom := (Arr.store_eq_some_iff.1 h2).1
        rw [List.length_singleton] at hroom
        exact ih o2 (by omega)

/-- **What `bytes_to_hex` stores**: the text and a NUL, or nothing. -/
theorem bytesToHex_eq (src : Bytes) (out : Arr n) :
    bytesToHex src out = if n < src.length * 2 + 1 then some out else out.store 0 (hexText src ++ [0]) := by
  unfold bytesToHex
  split
  · rfl
  · have happ : (out.store 0 (hexText src)).bind (fun o => o.store (0 + (hexText src).length) [0]) =
        out.store 0 (hexText src ++ [0]) := Arr.store_append
    rw [length_hexText, Nat.zero_add] at happ
    rw [hexLoop_eq out (Nat.zero_le n), ← happ]
    rfl

/-- The string in the output afterwards. -/
theorem cstr_bytesToHex {src : Bytes} {out out' : Arr n} (h : bytesToHex src out = some out') :
    cstr out'.data = if n < src.length * 2 + 1 then cstr out.data else hexText src := by
  rw [bytesToHex_eq] at h
  split at h
  · rename_i hlong
    rw [if_pos hlong, Option.some.inj h]
  · rename_i hfits
    rw [if_neg hfits]
    exact Arr.cstr_store h (not_mem_hexText src)

/-! ## What a pass logs -/

/-- `nonce_hex` and `ct_hex` in a line of the log. -/
def Log.hexes : Log → Option (Bytes × Bytes)
  | .tooShort _ => none
  | .plaintext nonce ct _ => some (nonce, ct)
  | .authFailure nonce ct => some (nonce, ct)

/-- There is room for a nonce and a tag. -/
def Accepted (z : Sizes) (dgram : Bytes) : Prop := z.nonceLen + z.tagLen ≤ dgram.length

/-- The text of ciphertext and tag fits in `ct_hex`. -/
def Fits (z : Sizes) (dgram : Bytes) : Prop := Accepted z dgram ∧ (dgram.length - z.nonceLen) * 2 + 1 ≤ 1024

def TooLong (z : Sizes) (dgram : Bytes) : Prop := Accepted z dgram ∧ 1024 < (dgram.length - z.nonceLen) * 2 + 1

instance : Decidable (Accepted z dgram) := inferInstanceAs (Decidable (_ ≤ _))

instance : Decidable (Fits z dgram) := inferInstanceAs (Decidable (_ ∧ _))

instance : Decidable (TooLong z dgram) := inferInstanceAs (Decidable (_ ∧ _))

/-- The encodings of the datagram itself, or the empty text where there is no room. -/
def ownHexes (z : Sizes) (dgram : Bytes) : Option (Bytes × Bytes) :=
  if Accepted z dgram then
    some (hexText (dgram.take z.nonceLen), if Fits z dgram then hexText (dgram.drop z.nonceLen) else [])
  else none

/-- A datagram that is refused leaves the hexadecimal text as it was. -/
theorem receivePass_short_eq (hshort : ¬ Accepted p.sizes dgram) (h : receivePass p key st dgram = some (st', log)) :
    log = .tooShort dgram.length ∧ st'.ctHex = st.ctHex := by
  unfold receivePass at h
  obtain ⟨buf, -, h⟩ := Option.bind_eq_some_iff.1 h
  rw [if_pos (not_le.1 hshort)] at h
  obtain ⟨rfl, rfl⟩ := Prod.mk.inj (Option.some.inj h)
  exact ⟨rfl, rfl⟩

/-- What `recvfrom` delivers has been stored in `buf`. -/
theorem receivePass_length (h : receivePass p key st dgram = some (st', log)) : dgram.length ≤ 2048 := by
  unfold receivePass at h
  obtain ⟨buf, hbuf, -⟩ := Option.bind_eq_some_iff.1 h
  have hroom := (Arr.store_eq_some_iff.1 hbuf).1
  omega

/-- **What a pass logs**: the nonce of the datagram, and what `ct_hex` holds then; that is the
text of its ciphertext and tag if this fits. -/
theorem receivePass_hexes (h8 : 8 ≤ p.sizes.nonceLen) (h : receivePass p key st dgram = some (st', log)) :
    log.hexes = (if Accepted p.sizes dgram then some (hexText (dgram.take p.sizes.nonceLen), cstr st'.ctHex.data) else none) ∧
    cstr st'.ctHex.data = if Fits p.sizes dgram then hexText (dgram.drop p.sizes.nonceLen) else cstr st.ctHex.data := by
  by_cases ha : Accepted p.sizes dgram
  · have hlen := receivePass_length h
    have hdrop : (dgram.drop p.sizes.nonceLen).length = dgram.length - p.sizes.nonceLen := List.length_drop
    have hn : (dgram.take p.sizes.nonceLen).length = p.sizes.nonceLen := by
      rw [List.length_take]
      exact min_eq_left (le_trans (Nat.le_add_right _ _) ha)
    have hc : p.sizes.tagLen ≤ (dgram.drop p.sizes.nonceLen).length := by
      rw [hdrop]
      exact Nat.le_sub_of_add_le' ha
    obtain ⟨buf, aad, nonceHex, ctHex, -, -, hnonce, hct, he⟩ := receivePass_eq p key st hn h8 hc
      (by rw [List.take_append_drop]; exact hlen)
    rw [List.take_append_drop, h, eq_comm] at he
    have hnonceText := cstr_bytesToHex hnonce
    have hctText := cstr_bytesToHex hct
    rw [hn, if_neg (lt_irrefl _)] at hnonceText
    rw [hdrop] at hctText
    -- both ways out of the pass log what the buffers hold
    obtain ⟨dec, -, he⟩ := Option.bind_eq_some_iff.1 he
    have hlog : st'.ctHex = ctHex ∧ log.hexes = some (cstr nonceHex.data, cstr ctHex.data) := by
      split at he
      · obtain ⟨pt, -, he⟩ := Option.map_eq_some_iff.1 he
        obtain ⟨rfl, rfl⟩ := Prod.mk.inj he
        exact ⟨rfl, rfl⟩
      · obtain ⟨rfl, rfl⟩ := Prod.mk.inj (Option.some.inj he)
        exact ⟨rfl, rfl⟩
    rw [hlog.1, hlog.2, hnonceText, if_pos ha]
    refine ⟨rfl, ?_⟩
    rw [hctText]
    by_cases hfits : Fits p.sizes dgram
    · rw [if_pos hfits, if_neg (not_lt.2 hfits.2)]
    · rw [if_neg hfits, if_pos (not_le.1 fun hle => hfits ⟨ha, hle⟩)]
  · obtain ⟨rfl, hct⟩ := receivePass_short_eq ha h
    rw [if_neg ha, if_neg fun hfits => ha hfits.1, hct]
    exact ⟨rfl, rfl⟩

/-! ## The loop -/

/-- What `ct_hex` holds: the text of the last datagram that fit. -/
def lastHex (z : Sizes) (dgrams : List Bytes) : Bytes :=
  (dgrams.filter fun d => Fits z d).getLast?.elim [] fun d => hexText (d.drop z.nonceLen)

/-- The newest datagram that fits has the last word. -/
theorem lastHex_concat : lastHex z (dgrams ++ [dgram]) =
    if Fits z dgram then hexText (dgram.drop z.nonceLen) else lastHex z dgrams := by
  unfold lastHex
  rw [List.filter_append]
  by_cases h : Fits z dgram
  · simp [h]
  · simp [h]

/-- The text is empty until a datagram fits. -/
theorem lastHex_eq_nil_iff (h0 : 0 < z.tagLen) : lastHex z dgrams = [] ↔ ∀ d ∈ dgrams, ¬ Fits z d := by
  constructor
  · intro h d hd hfits
    have hmem : d ∈ dgrams.filter fun d => Fits z d := List.mem_filter.2 ⟨hd, decide_eq_true hfits⟩
    obtain ⟨l, hl⟩ := Option.isSome_iff_exists.1 (List.getLast?_isSome.2 (List.ne_nil_of_mem hmem))
    have hlast := List.mem_filter.1 (List.mem_of_getLast? hl)
    have hroom : z.nonceLen + z.tagLen ≤ l.length := (of_decide_eq_true hlast.2).1
    rw [lastHex, hl, Option.elim_some] at h
    have hlength := congrArg List.length h
    rw [length_hexText, List.length_drop, List.length_nil] at hlength
    omega
  · intro h
    have hnil : (dgrams.filter fun d => Fits z d) = [] := by
      simpa [List.filter_eq_nil_iff] using h
    rw [lastHex, hnil]
    rfl

/-- No datagram that is too long for `ct_hex` comes after one that is not. -/
def InOrder (z : Sizes) (dgrams : List Bytes) : Prop := dgrams.Pairwise fun d d' => Fits z d → ¬ TooLong z d'

/-- The order of the datagrams, one more received. -/
theorem inOrder_concat : InOrder z (dgrams ++ [dgram]) ↔
    InOrder z dgrams ∧ (TooLong z dgram → ∀ d ∈ dgrams, ¬ Fits z d) := by
  unfold InOrder
  rw [List.pairwise_append]
  constructor
  · rintro ⟨h, -, hlast⟩
    exact ⟨h, fun hlong d hd hfits => hlast d hd dgram (List.mem_singleton_self _) hfits hlong⟩
  · rintro ⟨h, hlast⟩
    refine ⟨h, List.pairwise_singleton _ _, fun d hd d' hd' hfits hlong => ?_⟩
    rw [List.mem_singleton.1 hd'] at hlong
    exact hlast hlong d hd hfits

/-- What the loop has logged after `dgrams`. -/
structure Logged (p : Provider) (dgrams : List Bytes) (s : Statics p.sizes × List Log) : Prop where
  ctHex : cstr s.1.ctHex.data = lastHex p.sizes dgrams
  own : s.2.map Log.hexes = dgrams.map (ownHexes p.sizes) ↔ InOrder p.sizes dgrams

/-- A pass logs the datagram's own bytes iff its text fits or `ct_hex` is still empty. -/
theorem hexes_eq_own (h0 : 0 < p.sizes.tagLen) (h8 : 8 ≤ p.sizes.nonceLen) (hct : cstr st.ctHex.data = lastHex p.sizes dgrams)
    (h : receivePass p key st dgram = some (st', log)) :
    log.hexes = ownHexes p.sizes dgram ↔ (TooLong p.sizes dgram → ∀ d ∈ dgrams, ¬ Fits p.sizes d) := by
  obtain ⟨hlog, htext⟩ := receivePass_hexes h8 h
  rw [hlog, htext, ownHexes, hct, ← lastHex_eq_nil_iff h0]
  by_cases ha : Accepted p.sizes dgram
  · by_cases hfits : Fits p.sizes dgram
    · have hnot : ¬ TooLong p.sizes dgram := fun hlong => absurd hfits.2 (not_le.2 hlong.2)
      simp [ha, hfits, hnot]
    · have hlong : TooLong p.sizes dgram := ⟨ha, not_le.1 fun hle => hfits ⟨ha, hle⟩⟩
      simp [ha, hfits, hlong]
  · have hnot : ¬ TooLong p.sizes dgram := fun hlong => ha hlong.1
    simp [ha, hnot]

/-- **Every run** of the loop logs as `Logged` says. -/
theorem logged_of_run (h0 : 0 < p.sizes.tagLen) (h8 : 8 ≤ p.sizes.nonceLen)
    (h : (receiveLoop p key).Run anyStep (receiveLoop p key).init dgrams s) : Logged p dgrams s := by
  induction h with
  | nil =>
    refine ⟨?_, iff_of_true rfl List.Pairwise.nil⟩
    exact cstr_replicate _
  | snoc _ _ hs ih =>
    obtain ⟨⟨st', log⟩, hpass, rfl⟩ := Option.map_eq_some_iff.1 hs
    obtain ⟨-, htext⟩ := receivePass_hexes h8 hpass
    constructor
    · rw [lastHex_concat, ← ih.ctHex]
      exact htext
    · rw [inOrder_concat, ← ih.own, ← hexes_eq_own h0 h8 ih.ctHex hpass, List.map_append, List.map_append]
      constructor
      · intro he
        obtain ⟨he1, he2⟩ := List.append_inj' he rfl
        exact ⟨he1, (List.cons.inj he2).1⟩
      · rintro ⟨he1, he2⟩
        rw [he1, List.map_singleton, List.map_singleton, he2]

/-- **When every datagram is logged with its own bytes.** -/
theorem logs_own_bytes_iff (L : Libs) (i : Impl) {s : Statics (L.provider i).sizes × List Log}
    (h : (receiveLoop (L.provider i) key).Run anyStep (receiveLoop (L.provider i) key).init dgrams s) :
    s.2.map Log.hexes = dgrams.map (ownHexes (L.provider i).sizes) ↔ InOrder (L.provider i).sizes dgrams := by
  have h0 : 0 < (L.provider i).sizes.tagLen := by
    rw [L.provider_sizes]
    cases i <;> decide
  have h8 : 8 ≤ (L.provider i).sizes.nonceLen := by
    rw [L.provider_sizes]
    exact i.nonceLen_ge
  exact (logged_of_run h0 h8 h).own

/-- A pass that returns is a step of the loop. -/
theorem receiveLoop_step {r : Statics p.sizes × Log} (h : receivePass p key s.1 dgram = some r) :
    (receiveLoop p key).step s dgram = some (r.1, s.2 ++ [r.2]) := by
  simp only [receiveLoop, h, Option.map_some]

/-- Nothing stops the mock provider over datagrams that fit its buffers. -/
theorem run_two (key d d' : Bytes) (hd : d.length ≤ 1056) (hd' : d'.length ≤ 1056) :
    ∃ s, (receiveLoop (mockProvider Impl.mock.sizes) key).Run anyStep
      (receiveLoop (mockProvider Impl.mock.sizes) key).init [d, d'] s := by
  have hpass : ∀ (st : Statics Impl.mock.sizes) (e : Bytes), e.length ≤ 1056 →
      ∃ r, receivePass (mockProvider Impl.mock.sizes) key st e = some r := by
    intro st e he
    exact Option.isSome_iff_exists.1 ((receivePass_isSome_iff .mock key st e (by omega)).2 (.inl he))
  obtain ⟨r, hr⟩ := hpass (Statics.init _) d hd
  obtain ⟨r', hr'⟩ := hpass r.1 d' hd'
  have hstep := receiveLoop_step (s := (receiveLoop (mockProvider Impl.mock.sizes) key).init) hr
  have hstep' := receiveLoop_step (s := (r.1, [] ++ [r.2])) hr'
  exact ⟨_, .cons trivial hstep (.single trivial hstep')⟩

/-- 16 bytes of ciphertext and tag, and 512. -/
def shortDgram : Bytes := List.replicate 32 65

def overlongDgram : Bytes := List.replicate 528 66

theorem length_shortDgram : shortDgram.length = 32 := List.length_replicate

theorem length_overlongDgram : overlongDgram.length = 528 := List.length_replicate

theorem fits_shortDgram : Fits Impl.mock.sizes shortDgram := by
  rw [Fits, Accepted, length_shortDgram]
  decide

theorem tooLong_overlongDgram : TooLong Impl.mock.sizes overlongDgram := by
  rw [TooLong, Accepted, length_overlongDgram]
  decide

theorem not_fits_overlongDgram : ¬ Fits Impl.mock.sizes overlongDgram := by
  rw [Fits, Accepted, length_overlongDgram]
  decide

/-- The long datagram first: its text is empty, and the short one is logged with its own. -/
theorem logs_own_bytes_iff_long_first : ∃ s,
    (receiveLoop (rejecting.provider .mock) (gKey Impl.mock.sizes)).Run anyStep
      (receiveLoop (rejecting.provider .mock) (gKey Impl.mock.sizes)).init [overlongDgram, shortDgram] s ∧
    s.2.map Log.hexes = [overlongDgram, shortDgram].map (ownHexes Impl.mock.sizes) := by
  obtain ⟨s, hs⟩ := run_two (gKey Impl.mock.sizes) overlongDgram shortDgram (by rw [length_overlongDgram]; decide)
    (by rw [length_shortDgram]; decide)
  refine ⟨s, hs, (logs_own_bytes_iff rejecting .mock hs).2 ?_⟩
  exact List.pairwise_pair.2 fun hfits => absurd hfits not_fits_overlongDgram

/-- The short one first: the long one is logged with its bytes. -/
theorem stale_bytes_logged : ∃ s,
    (receiveLoop (mockProvider Impl.mock.sizes) (gKey Impl.mock.sizes)).Run anyStep
      (receiveLoop (mockProvider Impl.mock.sizes) (gKey Impl.mock.sizes)).init [shortDgram, overlongDgram] s ∧
    s.2.map Log.hexes ≠ [shortDgram, overlongDgram].map (ownHexes Impl.mock.sizes) ∧
    cstr s.1.ctHex.data = hexText (shortDgram.drop 16) := by
  obtain ⟨s, hs⟩ := run_two (gKey Impl.mock.sizes) shortDgram overlongDgram (by rw [length_shortDgram]; decide)
    (by rw [length_overlongDgram]; decide)
  have hl := logged_of_run (by decide) (by decide) hs
  refine ⟨s, hs, fun he => ?_, ?_⟩
  · exact List.pairwise_pair.1 (hl.own.1 he) fits_shortDgram tooLong_overlongDgram
  · have hlast : lastHex Impl.mock.sizes ([] ++ [shortDgram]) = hexText (shortDgram.drop 16) := by
      rw [lastHex_concat, if_pos fits_shortDgram]
      rfl
    have hkept : lastHex Impl.mock.sizes ([shortDgram] ++ [overlongDgram]) = lastHex Impl.mock.sizes [shortDgram] := by
      rw [lastHex_concat, if_neg not_fits_overlongDgram]
    exact hl.ctHex.trans (hkept.trans hlast)

end EspNetwork.Aead
