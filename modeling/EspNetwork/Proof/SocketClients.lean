import EspNetwork.Spec.SocketClients

/-!
# What the example clients do with their sockets

* `print_eq`: `rx_buffer` holds every piece and its terminator.
* `Inv.socket`, `Inv.check`, `Inv.connect`, `Inv.send`, `Inv.recv`: what each call of a
  client keeps, and `Inv.step` for all of them.
* `client_run`: **descriptors, turns and texts along any run** of any of the clients.
* `client_echo`: **against a server that echoes** nothing that comes back is lost in print.
-/

namespace EspNetwork.SocketClient

open CLib Lts Handle

/-- A text, possibly with NULs, and a terminator behind it. -/
theorem cstr_store_zero {n : ℕ} {a b d : Arr n} {bs : Bytes} (hb : a.store 0 bs = some b)
    (hd : b.store bs.length [0] = some d) : cstr d.data = cstr bs := by
  have h : a.store 0 (bs ++ [0]) = some d := by
    rw [← Arr.store_append, hb, Option.bind_some, Nat.zero_add, hd]
  rw [(Arr.store_eq_some_iff.1 h).2, List.take_zero, List.nil_append, List.append_assoc]
  by_cases h0 : 0 ∈ bs
  · exact cstr_append_of_mem h0 _
  · rw [List.singleton_append, cstr_append h0, cstr_eq_self h0]

theorem exists_store_zero (rx : Arr 128) {bs : Bytes} (h : bs.length ≤ 127) :
    ∃ b d, rx.store 0 bs = some b ∧ b.store bs.length [0] = some d := by
  obtain ⟨b, hb⟩ := Arr.exists_store rx 0 bs (by omega)
  obtain ⟨d, hd⟩ := Arr.exists_store b bs.length [0] (by
    rw [List.length_singleton]
    omega)
  exact ⟨b, d, hb, hd⟩

namespace State

variable {c : Client} {rx : Arr 128} {s t : State} {a : Call} {ls : List Call}

/-- **The stores keep to `rx_buffer`**, and what is printed ends at the first NUL. -/
theorem print_eq (s : State) {bs : Bytes} (h : bs.length ≤ 127) : ∃ rxBuffer, s.print bs =
    some { s with rxBuffer, printed := s.printed ++ [cstr bs], received := s.received ++ bs } := by
  obtain ⟨b, d, hb, hd⟩ := exists_store_zero s.rxBuffer h
  refine ⟨d, ?_⟩
  have hstr := cstr_store_zero hb hd
  simp only [print, hb, hd, Option.bind_eq_bind, Option.bind_some, hstr]
  rfl

/-- The calls after which the loop is left with the socket open. -/
def Leaves (a : Call) : Prop := a = .check false ∨ a = .connect false

/-- The pieces received. -/
def pieces (ls : List Call) : List Bytes := ls.filterMap fun
  | .recv (some bs) => some bs
  | _ => none

/-- The payloads that `send` took, as a whole or in part. -/
def sends (ls : List Call) : ℕ := ls.countP fun
  | .send (some _) => true
  | _ => false

/-- What a client holds, given the last call. -/
def Holds (s : State) (last : Option Call) : Prop :=
  match s.pc with
  | .socket => live s.log = []
  | .opened sock _ | .send sock | .recv sock => live s.log = [sock]
  | .returned => (∃ a ∈ last, Leaves a) ∧ (∃ sock, live s.log = [sock]) ∨ (∀ a ∈ last, ¬ Leaves a) ∧ live s.log = []

/-- A `recv` that is still to follow a `send`. -/
def awaited (s : State) : ℕ :=
  match s.pc with
  | .recv _ => 1
  | _ => 0

structure Inv (ls : List Call) (s : State) : Prop where
  proper : Proper s.log
  holds : s.Holds ls.getLast?
  printed : s.printed = (pieces ls).map cstr
  short : ∀ bs ∈ pieces ls, bs.length ≤ 127
  turns : sends ls = (pieces ls).length + ls.count (.recv none) + s.awaited

theorem pieces_snoc (ls : List Call) (a : Call) : pieces (ls ++ [a]) = pieces ls ++ pieces [a] := List.filterMap_append

theorem pieces_snoc_nil (ha : pieces [a] = []) : pieces (ls ++ [a]) = pieces ls := by
  rw [pieces_snoc, ha, List.append_nil]

theorem sends_snoc (ls : List Call) (a : Call) : sends (ls ++ [a]) = sends ls + sends [a] := List.countP_append

/-- A client begins with no call made. -/
theorem Inv.init : Inv [] (machine c rx).init :=
  ⟨trivial, rfl, rfl, fun _ h => absurd h List.not_mem_nil, rfl⟩

/-- A call that neither sends nor ends a `recv`. -/
theorem Inv.call (hi : Inv ls s) (ha : pieces [a] = [] ∧ sends [a] = 0 ∧ a ≠ .recv none) (hp : Proper t.log)
    (hh : t.Holds (some a)) (hprint : t.printed = s.printed) (hs : s.awaited = 0) (ht : t.awaited = 0) :
    Inv (ls ++ [a]) t := by
  obtain ⟨hpieces, hsends, hne⟩ := ha
  have hall : pieces (ls ++ [a]) = pieces ls := pieces_snoc_nil hpieces
  refine ⟨hp, ?_, ?_, ?_, ?_⟩
  · rwa [List.getLast?_concat]
  · rw [hprint, hall, hi.printed]
  · rw [hall]
    exact hi.short
  · have := hi.turns
    rw [sends_snoc, hall, hsends, List.count_append, List.count_singleton, if_neg (by simpa using hne)]
    omega

/-- `shutdown` and `close`. -/
theorem disconnect_spec {sock : ℕ} (last : Option Call) (hl : ∀ a ∈ last, ¬ Leaves a) (hp : Proper s.log)
    (hlive : live s.log = [sock]) : Proper (s.disconnect c sock).log ∧ (s.disconnect c sock).Holds last ∧
      (s.disconnect c sock).awaited = 0 := by
  have hnil : live (s.disconnect c sock).log = [] := by
    simp [disconnect, live, hlive]
  have hmem : sock ∈ live s.log := by rw [hlive]; exact List.mem_singleton_self _
  refine ⟨⟨⟨hp, hmem⟩, hmem⟩, ?_, ?_⟩
  · unfold Holds
    cases hc : c.again with
    | true => simpa only [disconnect, hc, if_true] using hnil
    | false => simpa only [disconnect, hc, Bool.false_eq_true, if_false] using Or.inr ⟨hl, hnil⟩
  · cases hc : c.again <;> simp [disconnect, awaited, hc]

/-- A socket that is held is open. -/
theorem mem_live {sock : ℕ} (h : live s.log = [sock]) : sock ∈ live s.log := h ▸ List.mem_singleton_self _

/-- `shutdown` and `close` after a call that fails. -/
theorem Inv.disconnect {sock : ℕ} (hi : Inv ls s) (hl : ¬ Leaves a) (hpieces : pieces [a] = [])
    (hlive : live s.log = [sock]) (hturns : sends ls + sends [a] = (pieces ls).length + (ls ++ [a]).count (.recv none)) :
    Inv (ls ++ [a]) (({ s with log := .use sock :: s.log } : State).disconnect c sock) := by
  obtain ⟨hp, hh, haw⟩ := disconnect_spec (s := { s with log := .use sock :: s.log }) (c := c) (some a)
    (fun b hb => by cases hb; exact hl) ⟨hi.proper, mem_live hlive⟩ hlive
  have hall : pieces (ls ++ [a]) = pieces ls := pieces_snoc_nil hpieces
  refine ⟨hp, by rwa [List.getLast?_concat], ?_, ?_, ?_⟩
  · rw [hall]
    exact hi.printed
  · rw [hall]
    exact hi.short
  · rw [sends_snoc, hall, haw, hturns, Nat.add_zero]

theorem Inv.socket {r : Option ℕ} (hi : Inv ls s) (hs : s.step c (.socket r) = some t) : Inv (ls ++ [.socket r]) t := by
  have hholds := hi.holds
  unfold Holds at hholds
  simp only [State.step] at hs
  split at hs
  · rename_i sock hpc
    rw [hpc] at hholds
    split at hs
    · cases hs
    · rename_i hfresh
      cases hs
      refine hi.call ⟨rfl, rfl, by simp⟩ ⟨hi.proper, hfresh⟩ ?_ rfl (by simp [awaited, hpc]) rfl
      simp only [Holds, live, hholds]
  · rename_i hpc
    rw [hpc] at hholds
    cases hs
    refine hi.call ⟨rfl, rfl, by simp⟩ hi.proper ?_ rfl (by simp [awaited, hpc]) rfl
    exact .inr ⟨fun a ha => by cases ha; simp [Leaves], hholds⟩
  · cases hs

theorem Inv.check {ok : Bool} (hi : Inv ls s) (hs : s.step c (.check ok) = some t) : Inv (ls ++ [.check ok]) t := by
  have hholds := hi.holds
  unfold Holds at hholds
  simp only [State.step] at hs
  split at hs
  · rename_i sock onSocket checks hpc
    rw [hpc] at hholds
    -- the check may be a call on the socket
    have hlog : Proper (if onSocket then .use sock :: s.log else s.log) ∧
        live (if onSocket then .use sock :: s.log else s.log) = [sock] := by
      cases onSocket with
      | true => exact ⟨⟨hi.proper, mem_live hholds⟩, hholds⟩
      | false => exact ⟨hi.proper, hholds⟩
    cases hs
    refine hi.call ⟨rfl, rfl, by simp⟩ hlog.1 ?_ rfl (by simp [awaited, hpc]) ?_
    · cases ok with
      | true => exact hlog.2
      | false => exact .inl ⟨⟨_, rfl, .inl rfl⟩, sock, hlog.2⟩
    · cases ok <;> rfl
  · cases hs

theorem Inv.connect {ok : Bool} (hi : Inv ls s) (hs : s.step c (.connect ok) = some t) :
    Inv (ls ++ [.connect ok]) t := by
  have hholds := hi.holds
  unfold Holds at hholds
  simp only [State.step] at hs
  split at hs
  · rename_i sock hpc
    rw [hpc] at hholds
    cases hs
    refine hi.call ⟨rfl, rfl, by simp⟩ ⟨hi.proper, mem_live hholds⟩ ?_ rfl (by simp [awaited, hpc]) ?_
    · cases ok with
      | true => exact hholds
      | false => exact .inl ⟨⟨_, rfl, .inr rfl⟩, sock, hholds⟩
    · cases ok <;> rfl
  · cases hs

theorem Inv.send {r : Option ℕ} (hi : Inv ls s) (hs : s.step c (.send r) = some t) : Inv (ls ++ [.send r]) t := by
  have hholds := hi.holds
  have hturns := hi.turns
  unfold Holds at hholds
  simp only [State.step] at hs
  split at hs
  · rename_i sock hpc
    rw [hpc] at hholds
    simp only [awaited, hpc] at hturns
    cases r with
    | none =>
      cases hs
      refine hi.disconnect (by simp [Leaves]) rfl hholds ?_
      rw [List.count_append, hturns]
      rfl
    | some n =>
      simp only at hs
      split at hs
      · cases hs
        have hpieces : pieces (ls ++ [.send (some n)]) = pieces ls := pieces_snoc_nil rfl
        refine ⟨⟨hi.proper, mem_live hholds⟩, hholds, ?_, ?_, ?_⟩
        · rw [hpieces]
          exact hi.printed
        · rw [hpieces]
          exact hi.short
        · -- the `recv` that is to follow
          rw [sends_snoc, hpieces, List.count_append, hturns]
          rfl
      · cases hs
  · cases hs

theorem Inv.recv {r : Option Bytes} (hi : Inv ls s) (hs : s.step c (.recv r) = some t) : Inv (ls ++ [.recv r]) t := by
  have hholds := hi.holds
  have hturns := hi.turns
  unfold Holds at hholds
  simp only [State.step] at hs
  split at hs
  · rename_i sock hpc
    rw [hpc] at hholds
    simp only [awaited, hpc] at hturns
    cases r with
    | none =>
      cases hs
      refine hi.disconnect (by simp [Leaves]) rfl hholds ?_
      rw [List.count_append, hturns]
      rfl
    | some bs =>
      simp only at hs
      split at hs
      · rename_i hshort
        obtain ⟨rx, hprint⟩ := print_eq { s with log := .use sock :: s.log, pc := .send sock } hshort
        rw [hprint] at hs
        cases hs
        have hpieces : pieces (ls ++ [.recv (some bs)]) = pieces ls ++ [bs] := pieces_snoc _ _
        refine ⟨⟨hi.proper, mem_live hholds⟩, hholds, ?_, ?_, ?_⟩
        · rw [hpieces, List.map_append, ← hi.printed]
          rfl
        · rw [hpieces]
          intro x hx
          rcases List.mem_append.1 hx with hx | hx
          · exact hi.short x hx
          · cases List.mem_singleton.1 hx
            exact hshort
        · have hcount : List.count (Call.recv none) [.recv (some bs)] = 0 := rfl
          have hsends : sends [.recv (some bs)] = 0 := rfl
          simp only [awaited]
          rw [sends_snoc, hpieces, List.count_append, hcount, hsends, List.length_append, List.length_singleton]
          omega
      · cases hs
  · cases hs

/-- **One call.** -/
theorem Inv.step (hi : Inv ls s) (hs : s.step c a = some t) : Inv (ls ++ [a]) t := by
  cases a with
  | socket r => exact hi.socket hs
  | check ok => exact hi.check hs
  | connect ok => exact hi.connect hs
  | send r => exact hi.send hs
  | recv r => exact hi.recv hs

/-- **The account of every run**. -/
theorem Inv.run {G : State → Call → Prop} (h : (machine c rx).Run G (machine c rx).init ls s) : Inv ls s := by
  induction h with
  | nil => exact Inv.init
  | snoc _ _ hs ih => exact ih.step hs

/-- What is known of a client after the calls `ls`. -/
structure Accounted (c : Client) (ls : List Call) (s : State) : Prop where
  proper : Proper s.log
  /-- there is never a second socket -/
  one : (live s.log).length ≤ 1
  again : s.pc = .socket → live s.log = []
  /-- the socket is left open exactly where the loop is left before the connection -/
  leak : s.pc = .returned → (live s.log ≠ [] ↔ ∃ a, ls.getLast? = some a ∧ Leaves a)
  printed : s.printed = (pieces ls).map cstr
  /-- one `recv` for every `send` -/
  turns : sends ls = (pieces ls).length + ls.count (.recv none) + s.awaited
  /-- whatever comes is stored inside `rx_buffer` -/
  stored : ∀ sock bs, s.pc = .recv sock → bs.length ≤ 127 → (s.step c (.recv (some bs))).isSome = true

/-- **Every run of every client.** -/
theorem client_run (h : (machine c rx).Run anyStep (machine c rx).init ls s) : Accounted c ls s := by
  have hi := Inv.run h
  have hholds := hi.holds
  unfold Holds at hholds
  refine ⟨hi.proper, ?_, ?_, ?_, hi.printed, hi.turns, ?_⟩
  · cases hpc : s.pc with
    | socket =>
      rw [hpc] at hholds
      simp only [hholds, List.length_nil, Nat.zero_le]
    | opened sock checks | send sock | recv sock =>
      rw [hpc] at hholds
      simp only [hholds, List.length_singleton, le_refl]
    | returned =>
      rw [hpc] at hholds
      rcases hholds with ⟨-, sock, hl⟩ | ⟨-, hl⟩
      · simp only [hl, List.length_singleton, le_refl]
      · simp only [hl, List.length_nil, Nat.zero_le]
  · intro hpc
    rwa [hpc] at hholds
  · intro hpc
    rw [hpc] at hholds
    rcases hholds with ⟨hlast, sock, hl⟩ | ⟨hlast, hl⟩
    · rw [hl]
      exact iff_of_true (List.cons_ne_nil _ _) hlast
    · rw [hl]
      refine iff_of_false (fun hne => hne rfl) ?_
      rintro ⟨a, ha, hleaves⟩
      exact hlast a ha hleaves
  · intro sock bs hpc hshort
    obtain ⟨rx, hprint⟩ := print_eq { s with log := .use sock :: s.log, pc := .send sock } hshort
    simp only [State.step, hpc, if_pos hshort, hprint, Option.isSome_some]

/-- A connection that the server closes, and a second socket for which no interface is found. -/
def secondSocket : List Call :=
  [.socket (some 3), .check true, .check true, .connect true, .send (some 19), .recv (some (bytes "Message ")),
    .send (some 19), .recv none, .socket (some 3), .check false]

/-- `client_run` at the end of `secondSocket`: that socket is left open. -/
theorem client_run_leak : ∃ s, (machine tcpClientV6Linux (Arr.zeros 128)).Run anyStep
      (machine tcpClientV6Linux (Arr.zeros 128)).init secondSocket s ∧
    s.pc = .returned ∧ Proper s.log ∧ live s.log ≠ [] ∧ s.printed = [bytes "Message "] := by
  have hrun : ((machine tcpClientV6Linux (Arr.zeros 128)).exec anyStep (machine tcpClientV6Linux (Arr.zeros 128)).init
      secondSocket).map (·.pc == .returned) = some true := by decide +kernel
  obtain ⟨s, hs, hp⟩ := Option.map_eq_some_iff.1 hrun
  rw [beq_iff_eq] at hp
  have hacc := client_run (Machine.Run.of_exec hs)
  exact ⟨s, .of_exec hs, hp, hacc.proper, (hacc.leak hp).2 ⟨_, rfl, .inl rfl⟩, hacc.printed.trans (by decide)⟩

/-! ## A server that echoes -/

/-- What comes back on a connection is what went out, in order. -/
def Echoes (s : State) : Call → Prop
  | .recv (some bs) => s.received ++ bs <+: s.sent
  | _ => True

instance (s : State) : ∀ a, Decidable (Echoes s a)
  | .recv (some bs) => inferInstanceAs (Decidable (s.received ++ bs <+: s.sent))
  | .recv none | .send _ | .socket _ | .check _ | .connect _ => instDecidableTrue

/-- What has been sent if `send` has taken `ns` bytes of each payload. -/
def payloads (ns : List ℕ) : Bytes := ns.flatMap fun n => payload.take n

/-- The lines of the current connection. -/
structure EchoInv (ls : List Call) (s : State) : Prop where
  sent : ∃ ns, s.sent = payloads ns
  received : s.received <+: s.sent
  lines : ∃ now, now <:+ s.printed ∧ now.flatten = s.received
  whole : ∀ bs ∈ pieces ls, 0 ∉ bs

theorem not_mem_payloads (ns : List ℕ) : (0 : Byte) ∉ payloads ns := by
  intro h
  obtain ⟨n, -, h0⟩ := List.mem_flatMap.1 h
  exact absurd (List.mem_of_mem_take h0) (by decide)

/-- The fields a call leaves alone. -/
theorem EchoInv.frame (he : EchoInv ls s) (ha : pieces [a] = []) (hsent : t.sent = s.sent)
    (hreceived : t.received = s.received) (hprinted : t.printed = s.printed) : EchoInv (ls ++ [a]) t := by
  refine ⟨?_, ?_, ?_, ?_⟩
  · rw [hsent]
    exact he.sent
  · rw [hsent, hreceived]
    exact he.received
  · rw [hreceived, hprinted]
    exact he.lines
  · rw [pieces_snoc_nil ha]
    exact he.whole

theorem EchoInv.init : EchoInv [] (machine c rx).init :=
  ⟨⟨[], rfl⟩, List.nil_prefix, ⟨[], List.nil_suffix, rfl⟩, fun _ h => absurd h List.not_mem_nil⟩

/-- **A call to an echoing peer** keeps the account of the lines. -/
theorem EchoInv.step (he : EchoInv ls s) (hg : Echoes s a) (hs : s.step c a = some t) : EchoInv (ls ++ [a]) t := by
  cases a with
  | socket r =>
    simp only [State.step] at hs
    split at hs
    · split at hs
      · cases hs
      · cases hs
        refine ⟨⟨[], rfl⟩, List.nil_prefix, ⟨[], List.nil_suffix, rfl⟩, ?_⟩
        rw [pieces_snoc_nil rfl]
        exact he.whole
    · cases hs
      exact he.frame rfl rfl rfl rfl
    · cases hs
  | check ok | connect ok =>
    simp only [State.step] at hs
    split at hs
    · cases hs
      exact he.frame rfl rfl rfl rfl
    · cases hs
  | send r =>
    simp only [State.step] at hs
    split at hs
    · cases r with
      | none =>
        cases hs
        exact he.frame rfl rfl rfl rfl
      | some n =>
        simp only at hs
        split at hs
        · cases hs
          obtain ⟨ns, hns⟩ := he.sent
          refine ⟨⟨ns ++ [n], ?_⟩, he.received.trans (List.prefix_append _ _), he.lines, ?_⟩
          · rw [payloads, List.flatMap_append, List.flatMap_singleton, ← payloads, ← hns]
          · rw [pieces_snoc_nil rfl]
            exact he.whole
        · cases hs
    · cases hs
  | recv r =>
    simp only [State.step] at hs
    split at hs
    · cases r with
      | none =>
        cases hs
        exact he.frame rfl rfl rfl rfl
      | some bs =>
        simp only at hs
        split at hs
        · rename_i sock _ hshort
          obtain ⟨rx, hprint⟩ := print_eq { s with log := .use sock :: s.log, pc := .send sock } hshort
          rw [hprint] at hs
          cases hs
          have hpre : s.received ++ bs <+: s.sent := hg
          -- the payload has no NUL
          have h0 : 0 ∉ bs := by
            obtain ⟨ns, hns⟩ := he.sent
            rw [hns] at hpre
            exact fun hmem => not_mem_payloads ns (hpre.subset (List.mem_append_right _ hmem))
          obtain ⟨now, ⟨before, hbefore⟩, hflat⟩ := he.lines
          refine ⟨he.sent, hpre, ⟨now ++ [bs], ⟨before, ?_⟩, ?_⟩, ?_⟩
          · rw [← List.append_assoc, hbefore, cstr_eq_self h0]
          · rw [List.flatten_append, hflat, List.flatten_singleton]
          · rw [pieces_snoc]
            intro x hx
            rcases List.mem_append.1 hx with hx | hx
            · exact he.whole x hx
            · cases List.mem_singleton.1 hx
              exact h0
        · cases hs
    · cases hs

/-- Pieces without NUL are printed as they came. -/
theorem EchoInv.printed (he : EchoInv ls s) (hi : Inv ls s) : s.printed = pieces ls := by
  rw [hi.printed]
  exact (List.map_congr_left fun bs hbs => cstr_eq_self (he.whole bs hbs)).trans (List.map_id _)

/-- **Against a server that echoes**, every piece is printed as it came, and the lines of a
connection are together a beginning of what was sent on it: of each payload as much as
`send` took. -/
theorem client_echo (h : (machine c rx).Run Echoes (machine c rx).init ls s) : s.printed = pieces ls ∧
    ∃ now ns, now <:+ s.printed ∧ now.flatten = s.received ∧ now.flatten <+: s.sent ∧ s.sent = payloads ns := by
  have hinv : EchoInv ls s := by
    induction h with
    | nil => exact EchoInv.init
    | snoc _ hg hs ih => exact ih.step hg hs
  obtain ⟨now, hnow, hflat⟩ := hinv.lines
  obtain ⟨ns, hns⟩ := hinv.sent
  exact ⟨hinv.printed (Inv.run h), now, ns, hnow, hflat, hflat ▸ hinv.received, hns⟩

/-- A payload that comes back in two pieces, a second one on its way. -/
def twoPieces : List Call :=
  [.socket (some 3), .connect true, .send (some 19), .recv (some (bytes "Message ")), .send (some 19),
    .recv (some (bytes "from ESP32 "))]

/-- `client_echo` at the end of `twoPieces`. -/
theorem client_echo_pieces : ∃ s, (machine tcpClientV4 (Arr.zeros 128)).Run Echoes
      (machine tcpClientV4 (Arr.zeros 128)).init twoPieces s ∧
    s.printed = [bytes "Message ", bytes "from ESP32 "] := by
  have hrun : ((machine tcpClientV4 (Arr.zeros 128)).exec Echoes (machine tcpClientV4 (Arr.zeros 128)).init
      twoPieces).isSome = true := by decide +kernel
  obtain ⟨s, hs⟩ := Option.isSome_iff_exists.1 hrun
  exact ⟨s, .of_exec hs, (client_echo (Machine.Run.of_exec hs)).1⟩

end State

end EspNetwork.SocketClient
