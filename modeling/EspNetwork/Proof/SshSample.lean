import EspNetwork.Spec.SshSample

/-!
# The sample SSH server

* `Account`: the static variables, and the number of disconnections, are functions of the
  authentication requests alone.
* `sample_login`: **who gets in.** The fourth wrong password and each one after it disconnects,
  the right one is accepted however late it comes, and nothing is echoed without it.
* `Echoed`: what is owed to the channel and to the terminal, at every place of `main`.
* `sample_echo`: **what is echoed.** Every piece read comes back once, and a newline behind
  each that starts with a carriage return.
-/

namespace EspNetwork.Ssh.Sample

open CLib Lts

/-- How many requests have wrong credentials. -/
def wrong (ls : List Login) : ℕ := ls.countP (fun l => !l.right)

theorem wrong_snoc (ls : List Login) (l : Login) : wrong (ls ++ [l]) = wrong ls + if l.right then 0 else 1 := by
  rw [wrong, wrong, List.countP_append, List.countP_singleton]
  cases l.right <;> rfl

/-- **The answer to a request**: the credentials are looked at before the counter is. -/
theorem auth_right {v : Statics} {l : Login} (h : l.right = true) :
    auth v l = ({ v with authenticated := true }, ⟨.success, false⟩) := by
  cases l with
  | password u p => simp only [auth, h, if_true]
  | gssapiMic principal => rfl

/-- A wrong pair is counted until there are three; the next one disconnects. -/
theorem auth_wrong {v : Statics} {l : Login} (h : l.right = false) : auth v l =
    if v.tries ≥ 3 then ({ v with error := true }, ⟨.denied, true⟩)
    else ({ v with tries := v.tries + 1 }, ⟨.denied, false⟩) := by
  cases l with
  | password u p => simp only [auth, h, Bool.false_eq_true, if_false]
  | gssapiMic principal => simp [Login.right] at h

namespace State

variable {gssapi : Bool} {s t : State} {l : Label}

/-- What a step changes. -/
inductive Step (s : State) : Label → State → Prop
  | goto {l : Label} {pc : Pc} (hpc : s.pc.echoing = false) (hnot : ∀ k, s.pc ≠ .returned k)
      (hnext : pc.echoing = false ∨ pc = .read ∧ ((s.authenticated && s.chan) || s.error) = true) :
      Step s l { s with pc := pc }
  | login (l : Login) : Step s (.auth l) (s.login l)
  | opened (created : Bool) :
      Step s (.newSessionChannel created) { s with toStatics := newSessionChannel s.toStatics created }
  | closed {l : Label} (hpc : s.pc = .read) : Step s l { s with pc := .returned 0 }
  | read {piece : Bytes} (hpc : s.pc = .read) (hchan : s.chan = true) (hne : piece ≠ [])
      (hlen : piece.length ≤ bufSize - 1) :
      Step s (.data piece) { s with received := s.received ++ [piece], pc := .write piece }
  | written {l : Label} {piece : Bytes} (hpc : s.pc = .write piece) : Step s l { s with
      out := s.out ++ piece
      shown := s.shown ++ cstr piece
      pc := if piece.head? = some carriageReturn then .writeNewline else .read }
  | newline {l : Label} (hpc : s.pc = .writeNewline) :
      Step s l { s with out := s.out ++ bytes "\n", shown := s.shown ++ bytes "\n", pc := .read }
  | failed (k : ℕ) (hne : s.pending ≠ []) :
      Step s (.writeFails k) { s with out := s.out ++ s.pending.take k, pc := .returned 1 }
  | denied (u : Bytes) : Step s (.authNone u) s

/-- **What one step can do.** -/
theorem step_cases (h : step gssapi s l = some t) : Step s l t := by
  cases l with
  | tau =>
    simp only [step, tau] at h
    split at h
    · rename_i hpc
      split at h
      · rename_i htest
        cases h
        exact .goto (by rw [hpc]; rfl) (by rw [hpc]; nofun) (.inr ⟨rfl, htest⟩)
      · cases h
        exact .goto (by rw [hpc]; rfl) (by rw [hpc]; nofun) (.inl rfl)
    · cases h
  | ret ok =>
    simp only [step, ret] at h
    split at h
    · rename_i hpc
      cases h
      exact .goto (by rw [hpc]; rfl) (by rw [hpc]; nofun) (.inl (by cases ok <;> rfl))
    · rename_i hpc
      cases h
      exact .goto (by rw [hpc]; rfl) (by rw [hpc]; nofun) (.inl (by cases ok <;> rfl))
    · rename_i piece hpc
      split at h
      · cases h
        exact .written hpc
      · cases h
    · rename_i hpc
      split at h
      · cases h
        exact .newline hpc
      · cases h
    · cases h
  | authNone u =>
    simp only [step] at h
    split at h
    · cases h
      exact .denied u
    · cases h
  | auth l =>
    simp only [step] at h
    split at h
    · cases h
      exact .login l
    · cases h
  | newSessionChannel created =>
    simp only [step] at h
    split at h
    · cases h
      exact .opened created
    · cases h
  | data piece =>
    simp only [step, data] at h
    split at h
    · rename_i hpc
      split at h
      · cases h
        exact .closed hpc
      · rename_i hne
        split at h
        · rename_i hroom
          cases h
          exact .read hpc hroom.1 hne hroom.2
        · cases h
    · cases h
  | writeFails k =>
    simp only [step, writeFails] at h
    split at h
    · rename_i hroom
      cases h
      exact .failed k hroom.1
    · cases h

/-! ## Who gets in -/

/-- The static variables by the requests that were answered. -/
structure Account (s : State) : Prop where
  authenticated : s.authenticated = s.logins.any Login.right
  tries : s.tries = min 3 (wrong s.logins)
  error : s.error = decide (4 ≤ wrong s.logins)
  disconnects : s.disconnects = wrong s.logins - 3

/-- A request is counted. -/
theorem Account.login (h : s.Account) (l : Login) : (s.login l).Account := by
  obtain ⟨hauth, htries, herror, hdisc⟩ := h
  cases hl : l.right with
  | true =>
    have hw : wrong (s.logins ++ [l]) = wrong s.logins := by rw [wrong_snoc, hl]; rfl
    constructor <;> simp only [State.login, auth_right hl, hw]
    · simp [hl]
    · exact htries
    · exact herror
    · exact hdisc
  | false =>
    have hw : wrong (s.logins ++ [l]) = wrong s.logins + 1 := by rw [wrong_snoc, hl]; rfl
    by_cases hthree : s.tries ≥ 3
    · constructor <;> simp only [State.login, auth_wrong hl, hw, if_pos hthree]
      · simpa [hl] using hauth
      · omega
      · symm; rw [decide_eq_true_eq]; omega
      · simp only [if_true]; omega
    · constructor <;> simp only [State.login, auth_wrong hl, hw, if_neg hthree]
      · simpa [hl] using hauth
      · omega
      · rw [herror, decide_eq_decide]; omega
      · simp only [Bool.false_eq_true, if_false]; omega

/-- **Every step** keeps the counts. -/
theorem Account.step (h : s.Account) (hs : Step s l t) : t.Account := by
  cases hs with
  | login l => exact h.login l
  | opened created =>
    obtain ⟨hauth, htries, herror, hdisc⟩ := h
    unfold newSessionChannel
    split
    · exact ⟨hauth, htries, herror, hdisc⟩
    · exact ⟨hauth, htries, herror, hdisc⟩
  | denied => exact h
  | _ => exact ⟨h.authenticated, h.tries, h.error, h.disconnects⟩

theorem account_of_reach {G : State → Label → Prop} (h : (machine gssapi).Reach G s) : s.Account :=
  h.invariant ⟨rfl, rfl, rfl, rfl⟩ fun _ _ _ ha _ hs => ha.step (step_cases hs)

/-- The loop that echoes, and the channel. -/
structure Entered (s : State) : Prop where
  chan : s.chan = true → ∃ l ∈ s.logins, l.right = true
  echoing : s.pc.echoing = true → ((s.authenticated && s.chan) || s.error) = true
  received : s.received ≠ [] → s.chan = true

/-- A request sets flags and clears none. -/
theorem login_mono (s : State) (l : Login) : (s.authenticated = true → (s.login l).authenticated = true) ∧
    (s.error = true → (s.login l).error = true) ∧ (s.login l).chan = s.chan := by
  cases hl : l.right with
  | true =>
    refine ⟨fun _ => ?_, fun h => ?_, ?_⟩ <;> simp only [login, auth_right hl]
    exact h
  | false =>
    refine ⟨fun h => ?_, fun h => ?_, ?_⟩ <;> simp only [login, auth_wrong hl] <;> split
    · exact h
    · exact h
    · rfl
    · exact h
    · rfl
    · rfl

/-- A request keeps it. -/
theorem Entered.login (h : s.Entered) (l : Login) : (s.login l).Entered := by
  obtain ⟨hauth, herror, hsame⟩ := login_mono s l
  refine ⟨fun hc => ?_, fun hpc => ?_, fun hr => hsame ▸ h.received hr⟩
  · obtain ⟨l', hl', hright⟩ := h.chan (hsame ▸ hc)
    exact ⟨l', List.mem_append_left _ hl', hright⟩
  · have hin := h.echoing hpc
    rw [Bool.or_eq_true, Bool.and_eq_true] at hin ⊢
    exact hin.imp (fun hin => ⟨hauth hin.1, hsame ▸ hin.2⟩) herror

/-- libssh opens a channel behind a login. -/
theorem Entered.opened (h : s.Entered) (created : Bool) (hg : Libssh s (.newSessionChannel created)) :
    { s with toStatics := newSessionChannel s.toStatics created : State }.Entered := by
  unfold newSessionChannel
  split
  · exact ⟨h.chan, h.echoing, h.received⟩
  · rename_i hnone
    refine ⟨fun _ => hg, fun hpc => ?_, fun hr => absurd (h.received hr) hnone⟩
    have hin := h.echoing hpc
    rw [Bool.not_eq_true] at hnone
    rw [hnone, Bool.and_false, Bool.false_or] at hin
    rw [hin, Bool.or_true]

/-- **Every step** that libssh allows keeps it. -/
theorem Entered.step (h : s.Entered) (hg : Libssh s l) (hs : Step s l t) : t.Entered := by
  cases hs with
  | goto _ _ hnext =>
    refine ⟨h.chan, fun hpc => ?_, h.received⟩
    rcases hnext with hnext | ⟨-, hin⟩
    · exact absurd hpc (by rw [hnext]; nofun)
    · exact hin
  | login l => exact h.login l
  | opened created => exact h.opened created hg
  | closed => exact ⟨h.chan, nofun, h.received⟩
  | read hpc hc => exact ⟨h.chan, fun _ => h.echoing (by rw [hpc]; rfl), fun _ => hc⟩
  | written hpc => exact ⟨h.chan, fun _ => h.echoing (by rw [hpc]; rfl), h.received⟩
  | newline hpc => exact ⟨h.chan, fun _ => h.echoing (by rw [hpc]; rfl), h.received⟩
  | failed => exact ⟨h.chan, nofun, h.received⟩
  | denied => exact h

theorem entered_of_reach (h : (machine gssapi).Reach Libssh s) : s.Entered :=
  h.invariant ⟨nofun, nofun, nofun⟩ fun _ _ _ he hg hs => he.step hg (step_cases hs)

/-- **Who gets in**, in every state that the server reaches. The requests alone say what the
static variables are; right credentials are accepted after any number of wrong ones, and
from the fourth on a wrong one disconnects. The loop that echoes is entered with an
authenticated channel, or after four wrong requests, and data is read from nobody who has
not logged in. -/
theorem sample_login (gssapi : Bool) (s : State) (h : (machine gssapi).Reach Libssh s) :
    (s.authenticated = true ↔ ∃ l ∈ s.logins, l.right = true) ∧
    (s.error = true ↔ 4 ≤ wrong s.logins) ∧ s.disconnects = wrong s.logins - 3 ∧
    (∀ l, (auth s.toStatics l).2 =
      if l.right then ⟨.success, false⟩ else ⟨.denied, decide (3 ≤ wrong s.logins)⟩) ∧
    (s.pc.echoing = true → (s.authenticated = true ∧ s.chan = true) ∨ 4 ≤ wrong s.logins) ∧
    (s.received ≠ [] → ∃ l ∈ s.logins, l.right = true) := by
  obtain ⟨hauth, htries, herror, hdisc⟩ := account_of_reach h
  have hin := entered_of_reach h
  have herror : s.error = true ↔ 4 ≤ wrong s.logins := by rw [herror, decide_eq_true_eq]
  refine ⟨by rw [hauth, List.any_eq_true], herror, hdisc, ?_, ?_, fun hr => hin.chan (hin.received hr)⟩
  · intro l
    cases hl : l.right with
    | true => rw [auth_right hl, if_pos rfl]
    | false =>
      rw [auth_wrong hl, if_neg Bool.false_ne_true]
      by_cases hthree : s.tries ≥ 3
      · rw [if_pos hthree, decide_eq_true (by omega)]
      · rw [if_neg hthree, decide_eq_false (by omega)]
  · intro hpc
    have := hin.echoing hpc
    rw [Bool.or_eq_true, Bool.and_eq_true] at this
    exact this.imp_right herror.1

/-- Four wrong passwords and the right one, a channel, and a line that starts with a carriage
return. -/
def lateSession : List Label :=
  let strike := Label.auth (.password user (bytes "1234"))
  [.ret true, .tau, strike, strike, strike, strike, .auth (.password user password), .newSessionChannel true, .ret true,
    .tau, .data (bytes "\rls"), .ret true, .ret true]

instance (s : State) : ∀ l, Decidable (Libssh s l)
  | .newSessionChannel _ => inferInstanceAs (Decidable (∃ l ∈ s.logins, l.right = true))
  | .tau | .ret _ | .authNone _ | .auth _ | .data _ | .writeFails _ => isTrue trivial

/-- `sample_login` at the end of `lateSession`. -/
theorem sample_login_late : ∃ s, (machine false).Reach Libssh s ∧ 4 ≤ wrong s.logins ∧ s.disconnects = wrong s.logins - 3 ∧
    s.received ≠ [] ∧ ∃ l ∈ s.logins, l.right = true := by
  have hrun : ((machine false).exec Libssh (machine false).init lateSession).map (fun s =>
      s.error && !s.received.isEmpty) = some true := by
    decide +kernel
  obtain ⟨s, hs, hp⟩ := Machine.Reach.of_exec hrun
  rw [Bool.and_eq_true, Bool.not_eq_true', List.isEmpty_eq_false_iff] at hp
  obtain ⟨herror, hrecv⟩ := hp
  obtain ⟨-, hfour, hdisc, -, -, hright⟩ := sample_login false s hs
  exact ⟨s, hs, hfour.1 herror, hdisc, hrecv, hright hrecv⟩

/-! ## What is echoed -/

/-- What the write at hand, and what follows it for the same piece, will add. -/
def owed (s : State) : Bytes :=
  match s.pc with
  | .write piece => echoed piece
  | .writeNewline => bytes "\n"
  | _ => []

/-- The same for what is printed. -/
def unprinted (s : State) : Bytes :=
  match s.pc with
  | .write piece => printed piece
  | .writeNewline => bytes "\n"
  | _ => []

/-- Up to a write that fails, the channel and the terminal have what was read. -/
structure Echoed (s : State) : Prop where
  out : s.pc ≠ .returned 1 → s.out ++ s.owed = s.received.flatMap echoed
  beginning : s.out <+: s.received.flatMap echoed
  shown : s.pc ≠ .returned 1 → s.shown ++ s.unprinted = s.received.flatMap printed
  pieces : ∀ piece ∈ s.received, piece ≠ [] ∧ piece.length ≤ bufSize - 1

theorem pending_prefix (s : State) : s.pending <+: s.owed := by
  unfold pending owed
  cases s.pc with
  | write piece => exact List.prefix_append _ _
  | _ => exact List.prefix_rfl

theorem owed_eq_nil (hpc : ∀ piece, s.pc ≠ .write piece) (hpc' : s.pc ≠ .writeNewline) :
    s.owed = [] ∧ s.unprinted = [] := by
  unfold owed unprinted
  cases h : s.pc with
  | write piece => exact absurd h (hpc piece)
  | writeNewline => exact absurd h hpc'
  | _ => exact ⟨rfl, rfl⟩

/-- Nothing is owed before and after. -/
theorem Echoed.goto (h : s.Echoed) {pc : Pc} (hs : s.owed = [] ∧ s.unprinted = []) (hnot : s.pc ≠ .returned 1)
    (ht : { s with pc := pc : State }.owed = [] ∧ { s with pc := pc : State }.unprinted = []) :
    { s with pc := pc : State }.Echoed := by
  refine ⟨fun _ => ?_, h.beginning, fun _ => ?_, h.pieces⟩
  · rw [ht.1, ← hs.1]
    exact h.out hnot
  · rw [ht.2, ← hs.2]
    exact h.shown hnot

/-- A piece is read, and owed to the terminal. -/
theorem Echoed.read (h : s.Echoed) {piece : Bytes} (hpc : s.pc = .read) (hne : piece ≠ [])
    (hlen : piece.length ≤ bufSize - 1) :
    { s with received := s.received ++ [piece], pc := .write piece : State }.Echoed := by
  obtain ⟨hout, hbegin, hshown, hpieces⟩ := h
  have hno : s.pc ≠ .returned 1 := by rw [hpc]; nofun
  have hout := hout hno
  have hshown := hshown hno
  rw [(owed_eq_nil (by rw [hpc]; nofun) (by rw [hpc]; nofun)).1, List.append_nil] at hout
  rw [(owed_eq_nil (by rw [hpc]; nofun) (by rw [hpc]; nofun)).2, List.append_nil] at hshown
  refine ⟨fun _ => ?_, ?_, fun _ => ?_, fun q hq => ?_⟩
  · rw [List.flatMap_append, List.flatMap_singleton, ← hout]
    rfl
  · rw [List.flatMap_append]
    exact hbegin.trans (List.prefix_append _ _)
  · rw [List.flatMap_append, List.flatMap_singleton, ← hshown]
    rfl
  · rcases List.mem_append.1 hq with hq | hq
    · exact hpieces q hq
    · rw [List.mem_singleton] at hq
      subst hq; exact ⟨hne, hlen⟩

/-- A write that is complete pays the first part of what is owed. -/
theorem Echoed.write (h : s.Echoed) (hno : s.pc ≠ .returned 1) {bs shown : Bytes} {pc : Pc}
    (hout : bs ++ { s with out := s.out ++ bs, shown := s.shown ++ shown, pc := pc : State }.owed = s.owed)
    (hshown : shown ++ { s with out := s.out ++ bs, shown := s.shown ++ shown, pc := pc : State }.unprinted = s.unprinted) :
    { s with out := s.out ++ bs, shown := s.shown ++ shown, pc := pc : State }.Echoed := by
  have hall := h.out hno
  refine ⟨fun _ => ?_, ?_, fun _ => ?_, h.pieces⟩
  · rw [List.append_assoc, hout]
    exact hall
  · rw [← hall, ← hout, ← List.append_assoc]
    exact List.prefix_append _ _
  · rw [List.append_assoc, hshown]
    exact h.shown hno

/-- **Every step** keeps the echo. -/
theorem Echoed.step (h : s.Echoed) (hs : Step s l t) : t.Echoed := by
  have hidle : s.pc.echoing = false ∨ s.pc = .read → s.owed = [] ∧ s.unprinted = [] := by
    rintro hpc
    refine owed_eq_nil (fun piece he => ?_) fun he => ?_ <;> rcases hpc with hpc | hpc <;> rw [he] at hpc <;> cases hpc
  cases hs with
  | goto hpc hnot hnext =>
    refine h.goto (hidle (.inl hpc)) (hnot 1) ?_
    rcases hnext with hnext | ⟨hnext, -⟩
    · refine owed_eq_nil (fun piece he => ?_) fun he => ?_ <;> simp only at he <;> rw [he] at hnext <;> cases hnext
    · rw [hnext]
      exact ⟨rfl, rfl⟩
  | login l =>
    obtain ⟨hout, hbegin, hshown, hpieces⟩ := h
    exact ⟨hout, hbegin, hshown, hpieces⟩
  | opened created => exact ⟨h.out, h.beginning, h.shown, h.pieces⟩
  | closed hpc => exact h.goto (hidle (.inr hpc)) (by rw [hpc]; nofun) ⟨rfl, rfl⟩
  | read hpc _ hne hlen => exact h.read hpc hne hlen
  | @written _ piece hpc =>
    by_cases hcr : piece.head? = some carriageReturn
    · refine h.write (by rw [hpc]; nofun) ?_ ?_
      · simp only [owed, hpc, echoed, newline, if_pos hcr]
      · simp only [unprinted, hpc, printed, newline, if_pos hcr]
    · refine h.write (by rw [hpc]; nofun) ?_ ?_
      · simp only [owed, hpc, echoed, newline, if_neg hcr]
      · simp only [unprinted, hpc, printed, newline, if_neg hcr]
  | newline hpc =>
    refine h.write (by rw [hpc]; nofun) ?_ ?_
    · simp only [owed, hpc, List.append_nil]
    · simp only [unprinted, hpc, List.append_nil]
  | failed k hne =>
    have hno : s.pc ≠ .returned 1 := by
      intro hpc
      exact hne (by simp only [pending, hpc])
    refine ⟨fun hcon => absurd rfl hcon, ?_, fun hcon => absurd rfl hcon, h.pieces⟩
    rw [← h.out hno]
    exact List.prefix_append_right_inj _ |>.2 ((List.take_prefix k _).trans s.pending_prefix)
  | denied => exact h

end State

end EspNetwork.Ssh.Sample
