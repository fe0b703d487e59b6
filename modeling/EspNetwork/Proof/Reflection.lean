import EspNetwork.Spec.Reflection

/-!
# A printed record can be told apart

* `appendUint8Array_cancel`: what is printed for an array ends where it says.
* `text_cancel`: the same for each value, in front of a separator.
* `toString_eq_iff`: **two records of one type are printed alike iff they agree**, as long as
  no text has a quote in it.
-/

namespace EspNetwork.Reflection

open CLib

/-- Members at one place of a type. -/
def Member.SameType (m m' : Member) : Prop :=
  m.identifier = m'.identifier ∧ match m.value, m'.value with
    | .array bs, .array bs' => bs.length = bs'.length
    | .number _, .number _ => True
    | _, _ => False

/-- A text in the record has no quote. -/
def Member.Plain (m : Member) : Prop :=
  match m.value with
  | .array bs => bs.length = 6 ∨ chr '"' ∉ bs.takeWhile (· ≠ 0)
  | .number _ => True

/-- Equal, for texts up to the first NUL. -/
def Member.Agree (m m' : Member) : Prop :=
  match m.value, m'.value with
  | .array bs, .array bs' =>
    if bs.length = 6 then bs = bs' else bs.takeWhile (· ≠ 0) = bs'.takeWhile (· ≠ 0)
  | .number n, .number n' => n = n'
  | _, _ => False

variable {m m' : Member} {ms ms' : List Member} {bs bs' r r' : Bytes}

/-- What may follow a value: the separator, or the end of the record. -/
def Stop (r : Bytes) : Prop := ∃ c t, r = c :: t ∧ (c = chr ',' ∨ c = chr ' ')

/-! ## Bytes in hexadecimal -/

@[simp] theorem length_hexByte (b : Byte) : (hexByte b).length = 2 := rfl

theorem hexByte_injective : Function.Injective hexByte := by
  have hdigit : ∀ d < 16, ∀ d' < 16, (bytes "0123456789abcdef").getD d 0 = (bytes "0123456789abcdef").getD d' 0 →
      d = d' := by
    decide +kernel
  intro b b' h
  have hb := b.toNat_lt
  have hb' := b'.toNat_lt
  simp only [hexByte, List.cons.injEq, and_true] at h
  obtain ⟨hhigh, hlow⟩ := h
  have hhigh := hdigit _ (by omega) _ (by omega) hhigh
  have hlow := hdigit _ (by omega) _ (by omega) hlow
  rw [← UInt8.toNat_inj]
  omega

/-- The bytes of an address are separated by colons. -/
theorem intercalate_hexByte_inj (h : bs.length = bs'.length)
    (he : [chr ':'].intercalate (bs.map hexByte) = [chr ':'].intercalate (bs'.map hexByte)) : bs = bs' := by
  induction bs generalizing bs' with
  | nil => rw [List.length_nil, eq_comm, List.length_eq_zero_iff] at h; rw [h]
  | cons b bs ih =>
    obtain ⟨b', bs', rfl⟩ := List.exists_cons_of_length_pos (l := bs') (by rw [← h]; simp)
    have h : bs.length = bs'.length := by simpa using h
    cases bs with
    | nil =>
      obtain rfl : bs' = [] := by rwa [List.length_nil, eq_comm, List.length_eq_zero_iff] at h
      have he : hexByte b = hexByte b' := by simpa using he
      rw [hexByte_injective he]
    | cons c bs =>
      obtain ⟨c', bs', rfl⟩ := List.exists_cons_of_length_pos (l := bs') (by rw [← h]; simp)
      have he : hexByte b ++ (chr ':' :: [chr ':'].intercalate ((c :: bs).map hexByte)) =
          hexByte b' ++ (chr ':' :: [chr ':'].intercalate ((c' :: bs').map hexByte)) := by
        simpa [List.intercalate] using he
      obtain ⟨hb, hrest⟩ := List.append_inj he rfl
      rw [hexByte_injective hb, ih h (List.cons.inj hrest).2]

theorem length_intercalate_hexByte (h : bs.length = bs'.length) :
    ([chr ':'].intercalate (bs.map hexByte)).length = ([chr ':'].intercalate (bs'.map hexByte)).length := by
  induction bs generalizing bs' with
  | nil => rw [List.length_nil, eq_comm, List.length_eq_zero_iff] at h; rw [h]
  | cons b bs ih =>
    obtain ⟨b', bs', rfl⟩ := List.exists_cons_of_length_pos (l := bs') (by rw [← h]; simp)
    have h : bs.length = bs'.length := by simpa using h
    have ih := ih h
    cases bs with
    | nil =>
      obtain rfl : bs' = [] := by rwa [List.length_nil, eq_comm, List.length_eq_zero_iff] at h
      rfl
    | cons c bs =>
      obtain ⟨c', bs', rfl⟩ := List.exists_cons_of_length_pos (l := bs') (by rw [← h]; simp)
      simpa [List.intercalate] using ih

/-! ## Values -/

/-- **What is printed for an array ends where it says.** -/
theorem appendUint8Array_cancel (h : bs.length = bs'.length)
    (hq : bs.length = 6 ∨ chr '"' ∉ bs.takeWhile (· ≠ 0)) (hq' : bs'.length = 6 ∨ chr '"' ∉ bs'.takeWhile (· ≠ 0))
    (he : appendUint8Array bs ++ r = appendUint8Array bs' ++ r') :
    (if bs.length = 6 then bs = bs' else bs.takeWhile (· ≠ 0) = bs'.takeWhile (· ≠ 0)) ∧ r = r' := by
  unfold appendUint8Array at he
  by_cases h6 : bs.length = 6
  · rw [if_pos h6, if_pos (h ▸ h6)] at he
    obtain ⟨harr, hr⟩ := List.append_inj he (length_intercalate_hexByte h)
    rw [if_pos h6]
    exact ⟨intercalate_hexByte_inj h harr, hr⟩
  · rw [if_neg h6, if_neg (h ▸ h6)] at he
    rw [if_neg h6]
    have he : bs.takeWhile (· ≠ 0) ++ chr '"' :: r = bs'.takeWhile (· ≠ 0) ++ chr '"' :: r' := by
      simpa using he
    exact split_unique (hq.resolve_left h6) (hq'.resolve_left (h ▸ h6)) he

/-- The digits of a number end at a separator. -/
theorem takeWhile_printLd (n : ℤ) (hr : Stop r) :
    (printLd n ++ r).takeWhile (fun b => b ≠ chr ',' ∧ b ≠ chr ' ') = printLd n := by
  obtain ⟨c, t, rfl, hc⟩ := hr
  rw [List.takeWhile_append_of_pos]
  · rw [List.takeWhile_cons_of_neg, List.append_nil]
    simpa using or_iff_not_imp_left.1 hc
  · intro b hb
    have hcomma : b ≠ chr ',' := fun e => not_mem_printLd (b := chr ',') (by decide) (by decide) n (e ▸ hb)
    have hspace : b ≠ chr ' ' := fun e => not_mem_printLd (b := chr ' ') (by decide) (by decide) n (e ▸ hb)
    simpa using ⟨hcomma, hspace⟩

/-- **A value can be told apart from what follows it.** -/
theorem text_cancel (hs : m.SameType m') (hp : m.Plain) (hp' : m'.Plain) (hr : Stop r) (hr' : Stop r')
    (he : m.value.text ++ r = m'.value.text ++ r') : m.Agree m' ∧ r = r' := by
  obtain ⟨name, v⟩ := m
  obtain ⟨name', v'⟩ := m'
  cases v with
  | array bs =>
    cases v' with
    | array bs' => exact appendUint8Array_cancel hs.2 hp hp' he
    | number n => exact hs.2.elim
  | number n =>
    cases v' with
    | array bs => exact hs.2.elim
    | number n' =>
      simp only [Value.text] at he
      have hn : printLd n = printLd n' := by rw [← takeWhile_printLd n hr, he, takeWhile_printLd n' hr']
      rw [hn] at he
      exact ⟨printLd_injective hn, List.append_cancel_left he⟩

/-- Values that agree are printed alike. -/
theorem text_of_agree (hs : m.SameType m') (h : m.Agree m') : m.value.text = m'.value.text := by
  obtain ⟨name, v⟩ := m
  obtain ⟨name', v'⟩ := m'
  cases v with
  | array bs =>
    cases v' with
    | array bs' =>
      have hlen : bs.length = bs'.length := hs.2
      simp only [Member.Agree] at h
      simp only [Value.text, appendUint8Array, ← hlen]
      split at h
      · rename_i h6
        rw [h]
      · rename_i h6
        rw [if_neg h6, if_neg h6, h]
    | number n => exact h.elim
  | number n =>
    cases v' with
    | array bs => exact h.elim
    | number n' => rw [show n = n' from h]

/-! ## Records -/

/-- Behind a member comes the separator, or the end. -/
theorem stop_appendMembers (ms : List Member) : Stop (appendMembers false ms ++ bytes " \x7d") := by
  cases ms with
  | nil => exact ⟨chr ' ', [chr '}'], rfl, .inr rfl⟩
  | cons m ms =>
    refine ⟨chr ',', bytes " \n\t" ++ (m.identifier ++ bytes " = " ++ m.value.text ++ appendMembers false ms ++
      bytes " \x7d"), ?_, .inl rfl⟩
    have hsep : bytes ", \n\t" = chr ',' :: bytes " \n\t" := by decide
    simp [appendMembers, hsep]

theorem appendMembers_cancel (first : Bool) (hs : List.Forall₂ Member.SameType ms ms') (hp : ∀ m ∈ ms, m.Plain)
    (hp' : ∀ m ∈ ms', m.Plain)
    (he : appendMembers first ms ++ bytes " \x7d" = appendMembers first ms' ++ bytes " \x7d") :
    List.Forall₂ Member.Agree ms ms' := by
  induction hs generalizing first with
  | nil => exact .nil
  | @cons m m' ms ms' hm hms ih =>
    simp only [appendMembers, hm.1, List.append_assoc, List.append_cancel_left_eq] at he
    obtain ⟨hagree, hrest⟩ := text_cancel hm (hp m List.mem_cons_self) (hp' m' List.mem_cons_self)
      (stop_appendMembers ms) (stop_appendMembers ms') he
    exact .cons hagree (ih false (fun m hm => hp m (List.mem_cons_of_mem _ hm))
      (fun m hm => hp' m (List.mem_cons_of_mem _ hm)) hrest)

theorem appendMembers_of_agree (first : Bool) (hs : List.Forall₂ Member.SameType ms ms')
    (h : List.Forall₂ Member.Agree ms ms') : appendMembers first ms = appendMembers first ms' := by
  induction hs generalizing first with
  | nil => rfl
  | cons hm _ ih =>
    obtain ⟨hagree, hrest⟩ := List.forall₂_cons.1 h
    rw [appendMembers, appendMembers, hm.1, text_of_agree hm hagree, ih false hrest]

/-- **A printed record says what the record is**: two records of one type, with no quote in
their texts, are printed alike exactly if all their members agree. -/
theorem toString_eq_iff (identifier : Bytes) (ms ms' : List Member) (hs : List.Forall₂ Member.SameType ms ms')
    (hp : ∀ m ∈ ms, m.Plain) (hp' : ∀ m ∈ ms', m.Plain) :
    toString identifier ms = toString identifier ms' ↔ List.Forall₂ Member.Agree ms ms' := by
  constructor
  · intro he
    simp only [toString, List.append_assoc, List.append_cancel_left_eq] at he
    exact appendMembers_cancel true hs hp hp' he
  · intro h
    rw [toString, toString, appendMembers_of_agree true hs h]

/-- Two station configurations that differ behind a NUL only. -/
theorem toString_eq_iff_padding :
    toString (bytes "wifi_sta_config_t") [⟨bytes "ssid", .array [110, 0, 1]⟩,
        ⟨bytes "bssid", .array [2, 0, 0, 18, 52, 86]⟩, ⟨bytes "channel", .number 6⟩] =
      toString (bytes "wifi_sta_config_t") [⟨bytes "ssid", .array [110, 0, 2]⟩,
        ⟨bytes "bssid", .array [2, 0, 0, 18, 52, 86]⟩, ⟨bytes "channel", .number 6⟩] := by
  have hplain : ∀ c : Byte, ∀ m ∈ [⟨bytes "ssid", .array [110, 0, c]⟩,
      ⟨bytes "bssid", .array [2, 0, 0, 18, 52, 86]⟩, (⟨bytes "channel", .number 6⟩ : Member)], m.Plain := by
    intro c m hm
    simp only [List.mem_cons, List.not_mem_nil, or_false] at hm
    rcases hm with rfl | rfl | rfl
    · exact .inr (show chr '"' ∉ [(110 : Byte)] by decide)
    · exact .inl rfl
    · exact trivial
  refine (toString_eq_iff _ _ _ ?_ (hplain 1) (hplain 2)).2 ?_
  · exact .cons ⟨rfl, rfl⟩ (.cons ⟨rfl, rfl⟩ (.cons ⟨rfl, trivial⟩ .nil))
  · exact .cons (by unfold Member.Agree; decide) (.cons (by unfold Member.Agree; decide) (.cons rfl .nil))

end EspNetwork.Reflection
