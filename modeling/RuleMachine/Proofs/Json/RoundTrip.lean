import RuleMachine.Json.Reader
import RuleMachine.Proofs.Text.Digits

/-!
# Reading what was written

A tree that is written is read again, and nothing of it is lost: numbers keep their parts, strings their characters, whichever of them have to be escaped, and arrays and objects what is in them in its order. Reading one value stops where it ends, because what follows it in a tree is a comma or a closing bracket.
-/

namespace RuleMachine

/-! ### Numbers -/

namespace JsonNumber

/-- There are only digits behind the point, so that the number can be written. -/
def IsWritable (n : JsonNumber) : Prop := ∀ c ∈ n.fraction, c.isDigit

def signChars (n : JsonNumber) : List Char := if n.negative then ['-'] else []

def fractionChars (n : JsonNumber) : List Char := if n.fraction.isEmpty then [] else '.' :: n.fraction

def exponentChars (n : JsonNumber) : List Char :=
  match n.exponent with
  | none => []
  | some e => 'e' :: (if e < 0 then '-' else '+') :: Nat.toDigits 10 e.natAbs

theorem text_eq (n : JsonNumber) :
    n.text = n.signChars ++ Nat.toDigits 10 n.whole ++ n.fractionChars ++ n.exponentChars := rfl

/-- A written number starts with its sign or a digit. -/
theorem exists_text_eq_cons (n : JsonNumber) : ∃ c r, n.text = c :: r ∧ (c = '-' ∨ c.isDigit) := by
  obtain ⟨c, r, hcons, hdigit⟩ := exists_toDigits_eq_cons n.whole
  rw [text_eq, signChars]
  split
  · exact ⟨_, _, rfl, .inl rfl⟩
  · exact ⟨c, r ++ n.fractionChars ++ n.exponentChars, by rw [hcons]; rfl, .inr hdigit⟩

end JsonNumber

namespace Json

/-- What may follow a value: nothing, or what separates and closes. -/
def Delimits (s : List Char) : Prop := ∀ c, s.head? = some c → c = ',' ∨ c = ']' ∨ c = '\x7d'

theorem delimits_nil : Delimits [] := by simp [Delimits]

theorem delimits_cons {c : Char} (h : c = ',' ∨ c = ']' ∨ c = '\x7d') (s : List Char) : Delimits (c :: s) := by
  intro d hd
  cases hd
  exact h

theorem Delimits.endsDigits {s : List Char} (h : Delimits s) : EndsDigits s := by
  intro c hc
  rcases h c hc with rfl | rfl | rfl <;> rfl

variable {digits rest : List Char} {n : JsonNumber}

theorem readDigits_append (hne : digits ≠ []) (hdigits : ∀ c ∈ digits, c.isDigit) (hrest : EndsDigits rest) :
    readDigits (digits ++ rest) = some (digits, rest) := by
  simp only [readDigits, takeWhile_isDigit_append hdigits hrest]
  rw [if_neg (by simpa using hne), List.drop_left]

theorem readDigits_toDigits (n : Nat) (hrest : EndsDigits rest) :
    readDigits (Nat.toDigits 10 n ++ rest) = some (Nat.toDigits 10 n, rest) :=
  readDigits_append Nat.toDigits_ne_nil (fun _ => isDigit_of_mem_toDigits) hrest

theorem readWhole_toDigits (n : Nat) (hrest : EndsDigits rest) : readWhole (Nat.toDigits 10 n ++ rest) = some (n, rest) := by
  have hzero : ¬ ((Nat.toDigits 10 n).head? = some '0' ∧ (Nat.toDigits 10 n).length ≠ 1) := by
    rintro ⟨hhead, hlength⟩
    rcases Nat.eq_zero_or_pos n with rfl | hpos
    · exact hlength rfl
    · exact head?_toDigits_ne hpos hhead
  rw [readWhole, readDigits_toDigits n hrest]
  simp only [Option.bind_eq_bind, Option.bind_some]
  rw [if_neg hzero, Nat.ofDigitChars_ten_toDigits]

theorem readPower_chars (e : Int) (hrest : EndsDigits rest) :
    readPower ((if e < 0 then '-' else '+') :: (Nat.toDigits 10 e.natAbs ++ rest)) = some (e, rest) := by
  have hdigits := readDigits_toDigits e.natAbs hrest
  split
  · next hneg =>
    have he : -(e.natAbs : Int) = e := by omega
    simp only [readPower, hdigits, Option.map_some, Nat.ofDigitChars_ten_toDigits, he]
  · next hpos =>
    have he : (e.natAbs : Int) = e := by omega
    simp only [readPower, hdigits, Option.map_some, Nat.ofDigitChars_ten_toDigits, he]

theorem readExponent_chars (n : JsonNumber) (hrest : Delimits rest) :
    readExponent (n.exponentChars ++ rest) = some (n.exponent, rest) := by
  rw [JsonNumber.exponentChars]
  split
  · next hnone =>
    rw [hnone, List.nil_append]
    unfold readExponent
    split
    · rcases hrest 'e' rfl with h | h | h <;> cases h
    · rcases hrest 'E' rfl with h | h | h <;> cases h
    · rfl
  · next e hsome =>
    simp only [hsome, List.cons_append, readExponent, readPower_chars e hrest.endsDigits, Option.map_some]

theorem head?_exponentChars {c : Char} (h : (n.exponentChars ++ rest).head? = some c) : c = 'e' ∨ rest.head? = some c := by
  rw [JsonNumber.exponentChars] at h
  split at h
  · exact .inr h
  · exact .inl (Option.some.inj h).symm

theorem endsDigits_exponentChars (hrest : Delimits rest) : EndsDigits (n.exponentChars ++ rest) := by
  intro c hc
  rcases head?_exponentChars hc with rfl | hc
  · rfl
  · exact hrest.endsDigits c hc

theorem readFraction_chars (hn : n.IsWritable) (hrest : Delimits rest) :
    readFraction (n.fractionChars ++ (n.exponentChars ++ rest)) = some (n.fraction, n.exponentChars ++ rest) := by
  rw [JsonNumber.fractionChars]
  split
  · next hempty =>
    rw [List.isEmpty_iff.1 hempty, List.nil_append]
    unfold readFraction
    split
    · next r hpoint =>
      have hhead := head?_exponentChars (hpoint ▸ rfl : (n.exponentChars ++ rest).head? = some '.')
      rcases hhead with h | h
      · cases h
      · rcases hrest '.' h with h | h | h <;> cases h
    · rfl
  · next hne =>
    rw [List.cons_append, readFraction, readDigits_append (by simpa using hne) hn (endsDigits_exponentChars hrest)]

theorem endsDigits_fractionChars (hrest : Delimits rest) : EndsDigits (n.fractionChars ++ (n.exponentChars ++ rest)) := by
  rw [JsonNumber.fractionChars]
  split
  · exact endsDigits_exponentChars hrest
  · exact endsDigits_cons rfl _

theorem readSign_chars (n : JsonNumber) (rest : List Char) :
    readSign (n.signChars ++ (Nat.toDigits 10 n.whole ++ rest)) = (n.negative, Nat.toDigits 10 n.whole ++ rest) := by
  obtain ⟨c, r, hcons, hdigit⟩ := exists_toDigits_eq_cons n.whole
  rw [JsonNumber.signChars]
  split
  · next hneg => rw [hneg]; rfl
  · next hneg =>
    rw [Bool.not_eq_true] at hneg
    rw [hneg, hcons, List.nil_append, List.cons_append]
    unfold readSign
    split
    · next hsign =>
      cases hsign
      cases hdigit
    · rfl

theorem readNumber_text (hn : n.IsWritable) (hrest : Delimits rest) : readNumber (n.text ++ rest) = some (n, rest) := by
  rw [JsonNumber.text_eq]
  simp only [List.append_assoc]
  simp only [readNumber, readSign_chars, readWhole_toDigits n.whole (endsDigits_fractionChars hrest),
    readFraction_chars hn hrest, readExponent_chars n hrest, Option.bind_eq_bind, Option.bind_some]
  rfl

/-! ### Strings -/

/-- The piece that a written character is read as. -/
def part (c : Char) : StringPart :=
  if c.toNat < 0x20 ∧ c ∉ ['\n', '\r', '\t', '\x08', '\x0c'] then .unit c.toNat else .char c

theorem hexUnit?_digitChar : ∀ n < 0x20, hexUnit? ['0', '0', Nat.digitChar (n / 16), Nat.digitChar (n % 16)] = some n := by
  decide

/-- A character is written with a letter behind a backslash, with its number, or as it stands. -/
theorem escape_cases (c : Char) :
    (∃ e, escape c = ['\\', e] ∧ simpleEscape? e = some c ∧ part c = .char c) ∨
      (c.toNat < 0x20 ∧ part c = .unit c.toNat ∧
        escape c = ['\\', 'u', '0', '0', Nat.digitChar (c.toNat / 16), Nat.digitChar (c.toNat % 16)]) ∨
      (c ≠ '"' ∧ c ≠ '\\' ∧ 0x20 ≤ c.toNat ∧ part c = .char c ∧ escape c = [c]) := by
  by_cases hletter : c ∈ ['"', '\\', '\n', '\r', '\t', '\x08', '\x0c']
  · simp only [List.mem_cons, List.not_mem_nil, or_false] at hletter
    rcases hletter with rfl | rfl | rfl | rfl | rfl | rfl | rfl <;> exact .inl ⟨_, rfl, rfl, rfl⟩
  · simp only [List.mem_cons, List.not_mem_nil, or_false, not_or] at hletter
    by_cases hcontrol : c.toNat < 0x20
    · exact .inr (.inl ⟨hcontrol, by simp [part, hcontrol, hletter], by simp [escape, hcontrol, hletter]⟩)
    · exact .inr (.inr ⟨hletter.1, hletter.2.1, by omega, by simp [part, hcontrol], by simp [escape, hcontrol, hletter]⟩)

theorem readParts_letter {e c : Char} (h : simpleEscape? e = some c) (rest : List Char) :
    readParts ('\\' :: e :: rest) = (readParts rest).map fun (parts, t) => (.char c :: parts, t) := by
  have hu : e ≠ 'u' := by
    rintro rfl
    cases h
  cases hrest : readParts rest <;> simp [readParts, h, hu, hrest]

theorem readParts_plain {c : Char} (hquote : c ≠ '"') (hbackslash : c ≠ '\\') (hcontrol : 0x20 ≤ c.toNat)
    (rest : List Char) : readParts (c :: rest) = (readParts rest).map fun (parts, t) => (.char c :: parts, t) := by
  cases hrest : readParts rest <;> simp [readParts, hbackslash, hcontrol, hrest]

theorem readParts_escape (c : Char) (rest : List Char) :
    readParts (escape c ++ rest) = (readParts rest).map fun (parts, t) => (part c :: parts, t) := by
  rcases escape_cases c with ⟨e, hescape, hletter, hpart⟩ | ⟨hcontrol, hpart, hescape⟩ |
    ⟨hquote, hbackslash, hcontrol, hpart, hescape⟩
  · rw [hescape, hpart]
    exact readParts_letter hletter rest
  · rw [hescape, hpart]
    cases hrest : readParts rest <;> simp [readParts, hexUnit?_digitChar _ hcontrol, hrest]
  · rw [hescape, hpart]
    exact readParts_plain hquote hbackslash hcontrol rest

theorem readParts_flatMap (s rest : List Char) : readParts (s.flatMap escape ++ '"' :: rest) = some (s.map part, rest) := by
  induction s with
  | nil => rfl
  | cons c s ih => rw [List.flatMap_cons, List.append_assoc, readParts_escape, ih]; rfl

/-- A unit that is no surrogate stands for a character, whatever follows it. -/
theorem spell?_unit {n : Nat} (h : n < 0xd800) (parts : List StringPart) :
    spell? (.unit n :: parts) = (spell? parts).map (Char.ofNat n :: ·) := by
  have hhigh : isHighSurrogate n = false := by simp [isHighSurrogate]; omega
  have hlow : isLowSurrogate n = false := by simp [isLowSurrogate]; omega
  rcases parts with _ | ⟨c | m, parts⟩
  · simp [spell?, hhigh, hlow]
  · simp [spell?, hhigh, hlow]
    rfl
  · simp [spell?, hhigh, hlow]

theorem spell?_part (s : List Char) : spell? (s.map part) = some s := by
  induction s with
  | nil => rfl
  | cons c s ih =>
    rw [List.map_cons, part]
    split
    · next hcontrol => rw [spell?_unit (by omega), ih, Char.ofNat_toNat]; rfl
    · rw [spell?, ih]; rfl

theorem readString_flatMap (s rest : List Char) : readString (s.flatMap escape ++ '"' :: rest) = some (some s, rest) := by
  rw [readString, readParts_flatMap]
  exact congrArg (fun s => some (s, rest)) (spell?_part s)

/-! ### Trees -/

/-- Everything in the tree has a text: its numbers have digits behind the point, and its strings characters. -/
inductive IsWritable : Json → Prop
  | null : IsWritable null
  | bool (b : Bool) : IsWritable (bool b)
  | number {n : JsonNumber} (h : n.IsWritable) : IsWritable (number n)
  | string (s : List Char) : IsWritable (string (some s))
  | array {items : List Json} (h : ∀ item ∈ items, IsWritable item) : IsWritable (array items)
  | object {members : List (Option (List Char) × Json)} (hnames : ∀ member ∈ members, member.1.isSome)
      (hvalues : ∀ member ∈ members, IsWritable member.2) : IsWritable (object members)

/-- The tree is read where its text stands in front of something that may follow it, and in no more steps than its text has characters, twice over. -/
def ReadsBack (j : Json) : Prop :=
  ∀ fuel rest, 2 * j.chars.length ≤ fuel → Delimits rest → readValue fuel (j.chars ++ rest) = some (j, rest)

def isSpace (c : Char) : Bool := c = ' ' || c = '\n' || c = '\t' || c = '\r'

theorem skipSpace_cons {c : Char} (h : isSpace c = false) (s : List Char) : skipSpace (c :: s) = c :: s :=
  List.dropWhile_cons_of_neg (by simp [isSpace] at h; simp [h])

theorem Delimits.skipSpace_eq {s : List Char} (h : Delimits s) : skipSpace s = s := by
  cases s with
  | nil => rfl
  | cons c s => rcases h c rfl with rfl | rfl | rfl <;> rfl

/-- A number does not start with a blank. -/
theorem isSpace_of_number {c : Char} (h : c = '-' ∨ c.isDigit) : isSpace c = false := by
  rw [← Bool.not_eq_true]
  intro hspace
  simp only [isSpace, Bool.or_eq_true, decide_eq_true_eq] at hspace
  rcases hspace with ((rfl | rfl) | rfl) | rfl <;> rcases h with h | h <;> cases h

theorem readValue_number {fuel : Nat} {c : Char} {r u : List Char} (hc : c = '-' ∨ c.isDigit)
    (h : readNumber (c :: r) = some (n, u)) : readValue (fuel + 1) (c :: r) = some (number n, u) := by
  rw [readValue, skipSpace_cons (isSpace_of_number hc)]
  -- No other kind of value starts like a number.
  split
  case h_7 => rw [h]; rfl
  all_goals
    next heq =>
      cases heq
      rcases hc with hc | hc <;> cases hc

theorem readValue_array {fuel : Nat} {c : Char} {r u : List Char} {items : List Json} (hspace : isSpace c = false)
    (hclose : c ≠ ']') (h : readItems fuel (c :: r) = some (items, u)) :
    readValue (fuel + 1) ('[' :: c :: r) = some (array items, u) := by
  rw [readValue, skipSpace_cons rfl]
  simp only [skipSpace_cons hspace]
  split
  · next heq =>
    cases heq
    exact absurd rfl hclose
  · rw [h]
    rfl

theorem readValue_object {fuel : Nat} {r u : List Char} {members : List (Option (List Char) × Json)}
    (h : readMembers fuel ('"' :: r) = some (members, u)) :
    readValue (fuel + 1) ('\x7b' :: '"' :: r) = some (object members, u) := by
  rw [readValue, skipSpace_cons rfl]
  simp only [skipSpace_cons (c := '"') rfl]
  exact congrArg (Option.map fun read => (object read.1, read.2)) h

/-- No text of a value starts with a blank or closes an array. -/
theorem exists_chars_eq_cons {j : Json} (h : j.IsWritable) : ∃ c r, j.chars = c :: r ∧ isSpace c = false ∧ c ≠ ']' := by
  cases h with
  | null => exact ⟨_, _, by rw [chars], rfl, by decide⟩
  | bool b => cases b <;> exact ⟨_, _, by rw [chars]; rfl, rfl, by decide⟩
  | @number n h =>
    obtain ⟨c, r, htext, hc⟩ := n.exists_text_eq_cons
    refine ⟨c, r, by rw [chars, htext], isSpace_of_number hc, ?_⟩
    rintro rfl
    rcases hc with hc | hc <;> cases hc
  | string s => exact ⟨_, _, by rw [chars]; rfl, rfl, by decide⟩
  | array h => exact ⟨_, _, by rw [chars]; rfl, rfl, by decide⟩
  | object hnames hvalues => exact ⟨_, _, by rw [chars]; rfl, rfl, by decide⟩

theorem quote_append (name rest : List Char) : quote name ++ rest = '"' :: (name.flatMap escape ++ '"' :: rest) := by
  simp [quote]

theorem itemChars_cons_cons (item second : Json) (others : List Json) :
    itemChars (item :: second :: others) = item.chars ++ ',' :: itemChars (second :: others) := by
  rw [itemChars]
  simp

theorem memberChars_cons_cons (name : List Char) (value : Json) (second : Option (List Char) × Json)
    (others : List (Option (List Char) × Json)) :
    memberChars ((some name, value) :: second :: others) =
      quote name ++ ':' :: value.chars ++ ',' :: memberChars (second :: others) := by
  rw [memberChars]
  · rfl
  · simp

theorem exists_itemChars_eq_cons {item : Json} (h : item.IsWritable) (others : List Json) :
    ∃ c r, itemChars (item :: others) = c :: r ∧ isSpace c = false ∧ c ≠ ']' := by
  obtain ⟨c, r, hchars, hc⟩ := exists_chars_eq_cons h
  cases others with
  | nil => exact ⟨c, r, by rw [itemChars, hchars], hc⟩
  | cons second others => exact ⟨c, _, by rw [itemChars_cons_cons, hchars]; rfl, hc⟩

theorem exists_memberChars_eq_cons (member : Option (List Char) × Json) (others : List (Option (List Char) × Json)) :
    ∃ r, memberChars (member :: others) = '"' :: r := by
  obtain ⟨name, value⟩ := member
  cases others with
  | nil => exact ⟨_, by rw [memberChars, quote_append]⟩
  | cons second others => exact ⟨_, by rw [memberChars, List.append_assoc, quote_append]; simp⟩

theorem readItems_chars {items : List Json} (hne : items ≠ []) (hitems : ∀ item ∈ items, item.ReadsBack) {fuel : Nat}
    (hfuel : 2 * (itemChars items).length + 1 ≤ fuel) (rest : List Char) :
    readItems fuel (itemChars items ++ ']' :: rest) = some (items, rest) := by
  induction items generalizing fuel with
  | nil => exact absurd rfl hne
  | cons item items ih =>
    obtain ⟨hitem, hbehind⟩ := List.forall_mem_cons.1 hitems
    obtain ⟨fuel, rfl⟩ : ∃ less, fuel = less + 1 := ⟨fuel - 1, by omega⟩
    cases items with
    | nil =>
      rw [itemChars] at hfuel ⊢
      have hdelimits : Delimits (']' :: rest) := delimits_cons (by simp) rest
      rw [readItems, hitem fuel _ (by omega) hdelimits]
      rfl
    | cons second others =>
      rw [itemChars_cons_cons] at hfuel ⊢
      simp only [List.length_append, List.length_cons] at hfuel
      have hdelimits : Delimits (',' :: (itemChars (second :: others) ++ ']' :: rest)) := delimits_cons (by simp) _
      rw [readItems, List.append_assoc, List.cons_append, hitem fuel _ (by omega) hdelimits]
      simp only [Option.bind_eq_bind, Option.bind_some, hdelimits.skipSpace_eq]
      rw [ih (by simp) hbehind (by omega)]
      rfl

theorem readMembers_last {fuel : Nat} {name rest u : List Char} {value : Json}
    (hvalue : readValue fuel rest = some (value, '\x7d' :: u)) :
    readMembers (fuel + 1) (quote name ++ ':' :: rest) = some ([(some name, value)], u) := by
  rw [quote_append, readMembers, skipSpace_cons rfl]
  simp only [readString_flatMap, Option.bind_eq_bind, Option.bind_some, skipSpace_cons (c := ':') rfl, hvalue]
  rfl

theorem readMembers_more {fuel : Nat} {name rest u v : List Char} {value : Json}
    {members : List (Option (List Char) × Json)} (hvalue : readValue fuel rest = some (value, ',' :: u))
    (hmembers : readMembers fuel u = some (members, v)) :
    readMembers (fuel + 1) (quote name ++ ':' :: rest) = some ((some name, value) :: members, v) := by
  rw [quote_append, readMembers, skipSpace_cons rfl]
  simp only [readString_flatMap, Option.bind_eq_bind, Option.bind_some, skipSpace_cons (c := ':') rfl, hvalue,
    skipSpace_cons (c := ',') rfl, hmembers]

theorem readMembers_chars {members : List (Option (List Char) × Json)} (hne : members ≠ [])
    (hnames : ∀ member ∈ members, member.1.isSome) (hvalues : ∀ member ∈ members, member.2.ReadsBack) {fuel : Nat}
    (hfuel : 2 * (memberChars members).length + 1 ≤ fuel) (rest : List Char) :
    readMembers fuel (memberChars members ++ '\x7d' :: rest) = some (members, rest) := by
  induction members generalizing fuel with
  | nil => exact absurd rfl hne
  | cons member members ih =>
    obtain ⟨name, value⟩ := member
    obtain ⟨hname, hothers⟩ := List.forall_mem_cons.1 hnames
    obtain ⟨hvalue, hbehind⟩ := List.forall_mem_cons.1 hvalues
    obtain ⟨name, rfl⟩ := Option.isSome_iff_exists.1 hname
    obtain ⟨fuel, rfl⟩ : ∃ less, fuel = less + 1 := ⟨fuel - 1, by omega⟩
    dsimp only at hvalue
    cases members with
    | nil =>
      rw [memberChars, Option.getD_some] at hfuel ⊢
      simp only [List.length_append, List.length_cons] at hfuel
      rw [List.append_assoc, List.cons_append]
      exact readMembers_last (hvalue fuel _ (by omega) (delimits_cons (by simp) rest))
    | cons second others =>
      rw [memberChars_cons_cons] at hfuel ⊢
      simp only [List.length_append, List.length_cons] at hfuel
      rw [List.append_assoc, List.append_assoc, List.cons_append, List.cons_append]
      exact readMembers_more (hvalue fuel _ (by omega) (delimits_cons (by simp) _)) (ih (by simp) hothers hbehind (by omega))

theorem readsBack_of_succ {j : Json} (hwritable : j.IsWritable)
    (h : ∀ fuel rest, 2 * j.chars.length ≤ fuel + 1 → Delimits rest →
      readValue (fuel + 1) (j.chars ++ rest) = some (j, rest)) : j.ReadsBack := by
  intro fuel rest hfuel hrest
  obtain ⟨c, r, hchars, -⟩ := exists_chars_eq_cons hwritable
  cases fuel with
  | zero =>
    rw [hchars, List.length_cons] at hfuel
    omega
  | succ fuel => exact h fuel rest hfuel hrest

/-- One case for each kind of value. -/
theorem readsBack_of_isWritable {j : Json} (h : j.IsWritable) : j.ReadsBack := by
  induction h with
  | null =>
    refine readsBack_of_succ .null fun fuel rest _ _ => ?_
    rw [chars, readValue]
    rfl
  | bool b =>
    refine readsBack_of_succ (.bool b) fun fuel rest _ _ => ?_
    rw [chars, readValue]
    cases b <;> rfl
  | @number n h =>
    refine readsBack_of_succ (.number h) fun fuel rest _ hrest => ?_
    obtain ⟨c, r, htext, hc⟩ := n.exists_text_eq_cons
    have hread := readNumber_text h hrest
    rw [chars]
    rw [htext, List.cons_append] at hread ⊢
    exact readValue_number hc hread
  | string s =>
    refine readsBack_of_succ (.string s) fun fuel rest _ _ => ?_
    rw [chars, Option.getD_some, quote_append, readValue, skipSpace_cons rfl]
    simp only [readString_flatMap]
    rfl
  | @array items h ih =>
    refine readsBack_of_succ (.array h) fun fuel rest hfuel _ => ?_
    rw [chars] at hfuel ⊢
    simp only [List.length_append, List.length_cons, List.cons_append, List.append_assoc] at hfuel ⊢
    cases items with
    | nil =>
      rw [readValue, skipSpace_cons rfl]
      rfl
    | cons item others =>
      obtain ⟨c, r, hchars, hspace, hclose⟩ := exists_itemChars_eq_cons (h item List.mem_cons_self) others
      have hread : readItems fuel (itemChars (item :: others) ++ ']' :: rest) = some (item :: others, rest) :=
        readItems_chars (by simp) ih (by omega) rest
      rw [hchars] at hread ⊢
      exact readValue_array hspace hclose hread
  | @object members hnames hvalues ih =>
    refine readsBack_of_succ (.object hnames hvalues) fun fuel rest hfuel _ => ?_
    rw [chars] at hfuel ⊢
    simp only [List.length_append, List.length_cons, List.cons_append, List.append_assoc] at hfuel ⊢
    cases members with
    | nil =>
      rw [readValue, skipSpace_cons rfl]
      rfl
    | cons member others =>
      have hread : readMembers fuel (memberChars (member :: others) ++ '\x7d' :: rest) = some (member :: others, rest) :=
        readMembers_chars (by simp) hnames ih (by omega) rest
      obtain ⟨r, hchars⟩ := exists_memberChars_eq_cons member others
      rw [hchars] at hread ⊢
      exact readValue_object hread

theorem parse?_text {j : Json} (h : j.IsWritable) : parse? j.text = some j := by
  have hread := readsBack_of_isWritable h (2 * j.chars.length + 2) [] (by omega) delimits_nil
  rw [List.append_nil] at hread
  rw [parse?, text, String.toList_ofList, hread]
  rfl

end Json

end RuleMachine
