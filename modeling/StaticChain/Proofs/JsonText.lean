import Mathlib.Data.List.Basic
import StaticChain.Json.Printer
import StaticChain.Json.Reader

/-!
# Reading back what was written

`Json.parse?_pretty` says that reading the text of a value gives the value, whatever the texts and
the whole numbers in it. Numbers that are not whole are kept as they were written, and nothing says
that this is how a number is written: the theorem is about values without them (`Json.Integral`).

A number ends where its digits end, so a value is read back only in front of a text that does not
go on with it. Behind a value stands the end of the text, a comma or a new line (`Json.Stops`).
Fuel is counted in characters of the text that is left, as `Json.parse?` hands it out.
-/

namespace StaticChain.Json

mutual

/-- Every number in the value is whole. -/
def Integral : Json → Prop
  | .real _ => False
  | .arr items => IntegralItems items
  | .obj members => IntegralMembers members
  | _ => True

def IntegralItems : List Json → Prop
  | [] => True
  | item :: items => Integral item ∧ IntegralItems items

def IntegralMembers : List (Option String × Json) → Prop
  | [] => True
  | member :: members => Integral member.2 ∧ IntegralMembers members

end

/-! ## Numbers -/

/-- The text does not go on with a number in front of it. -/
def Stops : List Char → Prop
  | [] => True
  | c :: _ => c = ',' ∨ c = '\n'

variable {rest : List Char}

@[simp] theorem stops_comma : Stops (',' :: rest) := .inl rfl

@[simp] theorem stops_newLine {level : Nat} : Stops ((newLine level).toList ++ rest) := by
  simp [newLine, Stops]

theorem Stops.takeWhile_isDigit (h : Stops rest) : rest.takeWhile Char.isDigit = [] := by
  cases rest with
  | nil => rfl
  | cons c rest => obtain rfl | rfl := h <;> rfl

theorem Stops.dropWhile_isDigit (h : Stops rest) : rest.dropWhile Char.isDigit = rest := by
  cases rest with
  | nil => rfl
  | cons c rest => obtain rfl | rfl := h <;> rfl

theorem Stops.readFraction (h : Stops rest) : readFraction rest = some ([], rest) := by
  cases rest with
  | nil => rfl
  | cons c rest => obtain rfl | rfl := h <;> rfl

theorem Stops.readExponent (h : Stops rest) : readExponent rest = some ([], rest) := by
  cases rest with
  | nil => rfl
  | cons c rest => obtain rfl | rfl := h <;> rfl

theorem takeDigits_append {digits : List Char} (hd : ∀ c ∈ digits, c.isDigit = true)
    (h : Stops rest) : takeDigits (digits ++ rest) = (digits, rest) := by
  unfold takeDigits
  rw [List.takeWhile_append_of_pos hd, List.dropWhile_append_of_pos hd, h.takeWhile_isDigit,
    h.dropWhile_isDigit, List.append_nil]

theorem isDigit_of_mem_toDigits {n : Nat} {c : Char} (h : c ∈ Nat.toDigits 10 n) :
    c.isDigit = true :=
  Nat.isDigit_of_mem_toDigits (by decide) (by decide) h

theorem digitsValue_toDigits (n : Nat) : digitsValue (Nat.toDigits 10 n) = n :=
  Nat.ofDigitChars_toDigits (by decide) (by decide)

/-- The digits of a number other than zero do not start with zero. -/
theorem toDigits_head {n : Nat} (hn : 0 < n) :
    ∃ c digits, Nat.toDigits 10 n = c :: digits ∧ c ≠ '0' := by
  induction n using Nat.strongRecOn with
  | ind n ih =>
    by_cases hlt : n < 10
    · refine ⟨n.digitChar, [], Nat.toDigits_of_lt_base hlt, ?_⟩
      exact (by decide : ∀ n < 10, 0 < n → Nat.digitChar n ≠ '0') n hlt hn
    · obtain ⟨c, digits, hd, hc⟩ := ih (n / 10) (by omega) (by omega)
      refine ⟨c, digits ++ [(n % 10).digitChar], ?_, hc⟩
      rw [Nat.toDigits_of_base_le (by decide) (by omega), hd, List.cons_append]

theorem readWhole_toDigits (n : Nat) (h : Stops rest) :
    readWhole (Nat.toDigits 10 n ++ rest) = some (Nat.toDigits 10 n, rest) := by
  unfold readWhole
  rw [takeDigits_append (fun c => isDigit_of_mem_toDigits) h]
  obtain rfl | hn := Nat.eq_zero_or_pos n
  · rfl
  · obtain ⟨c, digits, hd, hc⟩ := toDigits_head hn
    simp [hd, hc]

/-- Digits are no sign, so a text of digits is read as a number without one. -/
theorem readNumber_toDigits (n : Nat) (h : Stops rest) :
    readNumber (Nat.toDigits 10 n ++ rest) = some (.int n, rest) := by
  have hsign : ∀ text, Nat.toDigits 10 n ++ rest ≠ '-' :: text := by
    intro text he
    obtain ⟨c, digits, hd⟩ := List.exists_cons_of_ne_nil (Nat.toDigits_ne_nil (b := 10) (n := n))
    have hc : c.isDigit = true := isDigit_of_mem_toDigits (n := n) (by simp [hd])
    rw [hd, List.cons_append, List.cons.injEq] at he
    rw [he.1] at hc
    exact absurd hc (by decide)
  unfold readNumber
  split
  next hs =>
    split at hs
    · exact absurd ‹_› (hsign _)
    · obtain ⟨rfl, rfl⟩ := Prod.mk.inj hs
      simp [readWhole_toDigits n h, h.readFraction, h.readExponent, digitsValue_toDigits]

theorem readNumber_minus {n : Nat} (hn : 0 < n) (h : Stops rest) :
    readNumber ('-' :: (Nat.toDigits 10 n ++ rest)) = some (.int (-n), rest) := by
  simp [readNumber, readWhole_toDigits n h, h.readFraction, h.readExponent, digitsValue_toDigits,
    Nat.ne_of_gt hn]

theorem readNumber_toString (value : Int) (h : Stops rest) :
    readNumber ((toString value).toList ++ rest) = some (.int value, rest) := by
  cases value with
  | ofNat n =>
    have ht : (toString (Int.ofNat n)).toList = Nat.toDigits 10 n := Nat.toList_repr
    rw [ht]
    exact readNumber_toDigits n h
  | negSucc n =>
    have ht : (toString (Int.negSucc n)).toList = '-' :: Nat.toDigits 10 (n + 1) :=
      String.toList_append.trans (congrArg ('-' :: ·) Nat.toList_repr)
    rw [ht]
    exact readNumber_minus (Nat.succ_pos n) h

/-! ## Strings -/

theorem hexDigit?_hexChar {n : Nat} (h : n < 16) : hexDigit? (hexChar n) = some n :=
  (by decide : ∀ n < 16, hexDigit? (hexChar n) = some n) n h

theorem hexUnit?_hexChar {n : Nat} (h : n < 0x20) :
    hexUnit? '0' '0' (hexChar (n / 16)) (hexChar (n % 16)) = some n := by
  have h0 : hexDigit? '0' = some 0 := by decide
  simp only [hexUnit?, h0, hexDigit?_hexChar (show n / 16 < 16 by omega),
    hexDigit?_hexChar (Nat.mod_lt n (show 0 < 16 by decide)), bind, Option.bind, Option.some.injEq]
  omega

/-- A character as it is written stands for itself. -/
theorem readPieces_escape (c : Char) (text : List Char) :
    readPieces ((escape c).toList ++ text) =
      (readPieces text).map fun p => (.char c :: p.1, p.2) := by
  unfold escape
  split
  case h_8 _ h₁ h₂ _ _ _ _ _ =>
    split
    case isTrue hc =>
      have hu : Piece.ofUnit c.toNat = .char c := by
        rw [Piece.ofUnit, if_neg (by omega), Char.ofNat_toNat]
      simp only [String.toList_ofList, List.cons_append, List.nil_append]
      rw [readPieces, hexUnit?_hexChar hc]
      cases readPieces text <;> simp [hu]
    case isFalse hc =>
      have hne : ¬(c.toNat < 0x20 || c == '\\') = true := by
        simpa [hc] using fun h => h₂ h
      rw [show c.toString.toList = [c] from String.toList_singleton c, List.cons_append,
        List.nil_append, readPieces]
      · simp only [hne]
        cases readPieces text <;> simp
      · exact h₁
      · exact fun _ _ _ _ _ h _ => h₂ h
      · exact fun _ _ h _ => h₂ h
  all_goals cases h : readPieces text <;> simp [readPieces, escaped?, h]

/-- The text up to its closing quote. -/
theorem readPieces_escapes (chars text : List Char) :
    readPieces (chars.flatMap (fun c => (escape c).toList) ++ '"' :: text) =
      some (chars.map .char, text) := by
  induction chars with
  | nil => simp [readPieces]
  | cons c chars ih => simp [readPieces_escape, ih]

theorem joinPieces_chars (chars : List Char) : joinPieces (chars.map .char) = some chars := by
  induction chars with
  | nil => rfl
  | cons c chars ih => simp [joinPieces, ih]

/-- A member's name, or a text as a value, is a quote in front of what `readString` reads. -/
theorem readString_quoteName (name : Option String) : ∃ literal,
    (quoteName name).toList = '"' :: literal ∧
      ∀ rest, readString (literal ++ rest) = some (name, rest) := by
  cases name with
  | none => exact ⟨_, rfl, fun rest => rfl⟩
  | some text =>
    refine ⟨text.toList.flatMap (fun c => (escape c).toList) ++ ['"'], ?_, fun rest => ?_⟩
    · simp [quoteName, quote, String.toList_join, List.flatMap_map]
    · simp [readString, readPieces_escapes, joinPieces_chars]

/-! ## Blanks -/

theorem skipBlanks_replicate (n : Nat) (text : List Char) :
    skipBlanks (List.replicate n ' ' ++ text) = skipBlanks text := by
  induction n with
  | zero => rfl
  | succ n ih => simpa [List.replicate_succ, skipBlanks, isBlank] using ih

@[simp] theorem skipBlanks_newLine (level : Nat) (text : List Char) :
    skipBlanks ((newLine level).toList ++ text) = skipBlanks text := by
  have h : skipBlanks ('\n' :: (List.replicate (2 * level) ' ' ++ text)) =
      skipBlanks (List.replicate (2 * level) ' ' ++ text) := rfl
  simpa [newLine] using h.trans (skipBlanks_replicate (2 * level) text)

theorem skipBlanks_cons {c : Char} (hc : isBlank c = false) (text : List Char) :
    skipBlanks (c :: text) = c :: text := by
  simp [skipBlanks, hc]

attribute [local simp] readValue

theorem readValue_congr {text text' : List Char} (h : skipBlanks text = skipBlanks text')
    (fuel : Nat) : readValue fuel text = readValue fuel text' := by
  cases fuel with
  | zero => simp only [readValue]
  | succ fuel => simp only [readValue, h]

@[simp] theorem readValue_newLine (fuel level : Nat) (text : List Char) :
    readValue fuel ((newLine level).toList ++ text) = readValue fuel text :=
  readValue_congr (skipBlanks_newLine level text) fuel

@[simp] theorem readValue_space (fuel : Nat) (text : List Char) :
    readValue fuel (' ' :: text) = readValue fuel text :=
  readValue_congr (show skipBlanks (' ' :: text) = skipBlanks text from rfl) fuel

theorem readItems_newLine (fuel level : Nat) (text : List Char) :
    readItems fuel ((newLine level).toList ++ text) = readItems fuel text := by
  cases fuel with
  | zero => simp only [readItems]
  | succ fuel => simp only [readItems, readValue_newLine]

theorem readMembers_newLine (fuel level : Nat) (text : List Char) :
    readMembers fuel ((newLine level).toList ++ text) = readMembers fuel text := by
  cases fuel with
  | zero => simp only [readMembers]
  | succ fuel => simp only [readMembers, skipBlanks_newLine]

/-! ## Values -/

theorem toList_toString_int (value : Int) : ∃ c text, (toString value).toList = c :: text ∧
    (c.isDigit = true ∨ c = '-') := by
  cases value with
  | ofNat n =>
    obtain ⟨c, text, h⟩ := List.exists_cons_of_ne_nil (Nat.toDigits_ne_nil (b := 10) (n := n))
    refine ⟨c, text, Nat.toList_repr.trans h, .inl (isDigit_of_mem_toDigits (n := n) ?_)⟩
    simp [h]
  | negSucc n => exact ⟨'-', _, String.toList_append, .inr rfl⟩

theorem ne_of_isDigit {c d : Char} (hc : c.isDigit = true ∨ c = '-') (hd : d.isDigit = false)
    (hm : d ≠ '-') : c ≠ d := by
  rintro rfl
  simp [hd, hm] at hc

theorem isBlank_eq_false {c : Char} (hc : c.isDigit = true ∨ c = '-') : isBlank c = false := by
  simp [isBlank, ne_of_isDigit hc (d := ' '), ne_of_isDigit hc (d := '\t'),
    ne_of_isDigit hc (d := '\n'), ne_of_isDigit hc (d := '\r')]

/-- What starts with a digit or a sign is no bracket, quote or word. -/
theorem readValue_number {c : Char} (hc : c.isDigit = true ∨ c = '-') (fuel : Nat)
    (text : List Char) : readValue (fuel + 1) (c :: text) = readNumber (c :: text) := by
  rw [readValue, skipBlanks_cons (isBlank_eq_false hc)]
  split <;> first | rfl | simp_all

/-- The first character of a value is neither a blank nor a closing bracket. -/
theorem prettyAt_head {value : Json} (h : value.Integral) (level : Nat) : ∃ c text,
    (prettyAt level value).toList = c :: text ∧ isBlank c = false ∧ c ≠ ']' := by
  cases value with
  | int value =>
    obtain ⟨c, text, ht, hc⟩ := toList_toString_int value
    exact ⟨c, text, ht, isBlank_eq_false hc, ne_of_isDigit hc rfl (by decide)⟩
  | real lexeme => exact h.elim
  | null => exact ⟨'n', "ull".toList, by simp [prettyAt, scalar], rfl, by decide⟩
  | bool value =>
    cases value with
    | true => exact ⟨'t', "rue".toList, by simp [prettyAt, scalar], rfl, by decide⟩
    | false => exact ⟨'f', "alse".toList, by simp [prettyAt, scalar], rfl, by decide⟩
  | str text =>
    obtain ⟨literal, hl, -⟩ := readString_quoteName (some text)
    exact ⟨'"', literal, hl, rfl, by decide⟩
  | arr items => cases items <;> exact ⟨'[', _, by simp [prettyAt, scalar]; rfl, rfl, by decide⟩
  | obj members =>
    cases members <;> exact ⟨'\x7b', _, by simp [prettyAt, scalar]; rfl, rfl, by decide⟩
  | unpaired => exact ⟨'"', _, by simp [prettyAt, scalar, quoteUnpaired]; rfl, rfl, by decide⟩

/-- Characters that a reader of the value takes from the text in front of anything that stops it. -/
def ReadsBack (text : List Char) (value : Json) : Prop :=
  ∀ fuel rest, 2 * text.length + 1 ≤ fuel → Stops rest →
    readValue fuel (text ++ rest) = some (value, rest)

theorem readsBack_scalar {text : List Char} {value : Json}
    (h : ∀ fuel rest, Stops rest → readValue (fuel + 1) (text ++ rest) = some (value, rest)) :
    ReadsBack text value := by
  intro fuel rest hf hr
  obtain ⟨fuel, rfl⟩ := Nat.exists_eq_add_of_le' (show 1 ≤ fuel by omega)
  exact h fuel rest hr

theorem readsBack_str (name : Option String) :
    ReadsBack (quoteName name).toList (name.elim .unpaired .str) := by
  obtain ⟨literal, hl, hread⟩ := readString_quoteName name
  refine readsBack_scalar fun fuel rest _ => ?_
  rw [hl, List.cons_append, readValue, skipBlanks_cons rfl]
  simp [hread]

theorem readsBack_int (value : Int) : ReadsBack (toString value).toList (.int value) := by
  refine readsBack_scalar fun fuel rest hr => ?_
  obtain ⟨c, text, ht, hc⟩ := toList_toString_int value
  rw [ht, List.cons_append, readValue_number hc, ← List.cons_append, ← ht]
  exact readNumber_toString value hr

/-- The first element decides that the array is not empty; then all of them are read. -/
theorem readValue_arr {c : Char} (hb : isBlank c = false) (hc : c ≠ ']') (fuel level : Nat)
    (text : List Char) :
    readValue (fuel + 1) ('[' :: ((newLine level).toList ++ c :: text)) =
      (readItems fuel (c :: text)).map fun r => (.arr r.1, r.2) := by
  rw [readValue, skipBlanks_cons rfl]
  simp only [skipBlanks_newLine, skipBlanks_cons hb]
  split
  next he => exact absurd (List.cons.inj he).1 hc
  next => cases readItems fuel (c :: text) <;> rfl

theorem readValue_obj (fuel level : Nat) (text : List Char) :
    readValue (fuel + 1) ('\x7b' :: ((newLine level).toList ++ '"' :: text)) =
      (readMembers fuel ('"' :: text)).map fun r => (.obj r.1, r.2) := by
  rw [readValue, skipBlanks_cons rfl]
  simp only [skipBlanks_newLine, skipBlanks_cons (c := '"') rfl]
  split
  next he => exact absurd (List.cons.inj he).1 (by decide)
  next => cases readMembers fuel ('"' :: text) <;> rfl

/-- Elements that are read back one by one are read back in a row. -/
theorem readItems_eq {level : Nat} {item : Json} {items : List Json}
    (h : ∀ i ∈ item :: items, ReadsBack (prettyAt level i).toList i) (fuel last : Nat)
    (hf : 2 * ((prettyAt level item).toList.length + (prettyItems level items).toList.length) + 2
      ≤ fuel) (rest : List Char) :
    readItems fuel ((prettyAt level item).toList ++ ((prettyItems level items).toList ++
      ((newLine last).toList ++ ']' :: rest))) = some (item :: items, rest) := by
  induction items generalizing item fuel with
  | nil =>
    obtain ⟨fuel, rfl⟩ := Nat.exists_eq_add_of_le' (show 1 ≤ fuel by omega)
    have hitem := h item List.mem_cons_self fuel ((newLine last).toList ++ ']' :: rest) (by omega)
      stops_newLine
    simp [readItems, prettyItems, hitem, skipBlanks_cons (c := ']') rfl]
  | cons next items ih =>
    obtain ⟨fuel, rfl⟩ := Nat.exists_eq_add_of_le' (show 1 ≤ fuel by omega)
    simp only [prettyItems, String.toList_append, List.length_append, List.append_assoc,
      show ",".toList = [','] by simp, List.cons_append, List.nil_append, List.length_cons] at hf ⊢
    rw [readItems, h item List.mem_cons_self fuel _ (by omega) stops_comma]
    have hitems := ih (fun i hi => h i (List.mem_cons_of_mem item hi)) fuel (by omega)
    simp [skipBlanks_cons (c := ',') rfl, readItems_newLine, hitems]

/-- Members whose values are read back one by one are read back in a row. -/
theorem readMembers_eq {level : Nat} {member : Option String × Json}
    {members : List (Option String × Json)}
    (h : ∀ m ∈ member :: members, ReadsBack (prettyAt level m.2).toList m.2) (fuel last : Nat)
    (hf : 2 * ((prettyAt level member.2).toList.length +
      (prettyMembers level members).toList.length) + 2 ≤ fuel) (rest : List Char) :
    readMembers fuel ((quoteName member.1).toList ++ ':' :: ' ' ::
      ((prettyAt level member.2).toList ++ ((prettyMembers level members).toList ++
        ((newLine last).toList ++ '\x7d' :: rest)))) = some (member :: members, rest) := by
  induction members generalizing member fuel with
  | nil =>
    obtain ⟨fuel, rfl⟩ := Nat.exists_eq_add_of_le' (show 1 ≤ fuel by omega)
    obtain ⟨literal, hl, hread⟩ := readString_quoteName member.1
    have hvalue := h member List.mem_cons_self fuel ((newLine last).toList ++ '\x7d' :: rest)
      (by omega) stops_newLine
    simp [readMembers, prettyMembers, hl, hread, hvalue, skipBlanks_cons (c := '"') rfl,
      skipBlanks_cons (c := ':') rfl, skipBlanks_cons (c := '\x7d') rfl]
  | cons next members ih =>
    obtain ⟨fuel, rfl⟩ := Nat.exists_eq_add_of_le' (show 1 ≤ fuel by omega)
    obtain ⟨literal, hl, hread⟩ := readString_quoteName member.1
    simp only [prettyMembers, String.toList_append, List.length_append, List.append_assoc,
      show ",".toList = [','] by simp, show ": ".toList = [':', ' '] by simp, List.cons_append,
      List.nil_append, List.length_cons] at hf ⊢
    have hmembers := ih (fun m hm => h m (List.mem_cons_of_mem member hm)) fuel (by omega)
    rw [hl, List.cons_append, readMembers, skipBlanks_cons rfl]
    simp [hread, skipBlanks_cons (c := ':') rfl, h member List.mem_cons_self fuel _ (by omega) stops_comma,
      skipBlanks_cons (c := ',') rfl, readMembers_newLine, hmembers]

mutual

theorem readsBack_prettyAt (level : Nat) :
    ∀ {value : Json}, value.Integral → ReadsBack (prettyAt level value).toList value
  | .null, _ => readsBack_scalar fun _ _ _ => by
    simp [prettyAt, scalar, skipBlanks, isBlank]
  | .bool true, _ => readsBack_scalar fun _ _ _ => by
    simp [prettyAt, scalar, skipBlanks, isBlank]
  | .bool false, _ => readsBack_scalar fun _ _ _ => by
    simp [prettyAt, scalar, skipBlanks, isBlank]
  | .int value, _ => by
    rw [prettyAt, scalar]
    · exact readsBack_int value
    all_goals simp
  | .str text, _ => by
    rw [prettyAt, scalar]
    · exact readsBack_str (some text)
    all_goals simp
  | .unpaired, _ => by
    rw [prettyAt, scalar]
    · exact readsBack_str none
    all_goals simp
  | .arr [], _ => readsBack_scalar fun _ _ _ => by
    simp [prettyAt, scalar, skipBlanks, isBlank]
  | .obj [], _ => readsBack_scalar fun _ _ _ => by
    simp [prettyAt, scalar, skipBlanks, isBlank]
  | .arr (item :: items), h => by
    have hitems := readItems_eq (List.forall_mem_cons.2
      ⟨readsBack_prettyAt (level + 1) h.1, readsBack_items (level + 1) h.2⟩)
    obtain ⟨c, text, ht, hb, hc⟩ := prettyAt_head h.1 (level + 1)
    intro fuel rest hf hr
    obtain ⟨fuel, rfl⟩ := Nat.exists_eq_add_of_le' (show 1 ≤ fuel by omega)
    simp only [prettyAt, String.toList_append, List.length_append, List.append_assoc,
      show "[".toList = ['['] by simp, show "]".toList = [']'] by simp, List.cons_append,
      List.nil_append, List.length_cons] at hf ⊢
    rw [ht, List.cons_append, readValue_arr hb hc, ← List.cons_append, ← ht,
      hitems fuel level (by omega)]
    rfl
  | .obj (member :: members), h => by
    have hmembers := readMembers_eq (List.forall_mem_cons.2
      ⟨readsBack_prettyAt (level + 1) h.1, readsBack_members (level + 1) h.2⟩)
    obtain ⟨literal, hl, -⟩ := readString_quoteName member.1
    intro fuel rest hf hr
    obtain ⟨fuel, rfl⟩ := Nat.exists_eq_add_of_le' (show 1 ≤ fuel by omega)
    simp only [prettyAt, String.toList_append, List.length_append, List.append_assoc,
      show "\x7b".toList = ['\x7b'] by simp, show "\x7d".toList = ['\x7d'] by simp,
      show ": ".toList = [':', ' '] by simp, List.cons_append, List.nil_append, List.length_cons,
      List.length_nil] at hf ⊢
    rw [hl, List.cons_append, readValue_obj, ← List.cons_append, ← hl,
      hmembers fuel level (by omega)]
    rfl

theorem readsBack_items (level : Nat) : ∀ {items : List Json}, IntegralItems items →
    ∀ item ∈ items, ReadsBack (prettyAt level item).toList item
  | [], _ => fun _ hm => absurd hm List.not_mem_nil
  | _ :: _, h => List.forall_mem_cons.2
    ⟨readsBack_prettyAt level h.1, readsBack_items level h.2⟩

theorem readsBack_members (level : Nat) :
    ∀ {members : List (Option String × Json)}, IntegralMembers members →
      ∀ member ∈ members, ReadsBack (prettyAt level member.2).toList member.2
  | [], _ => fun _ hm => absurd hm List.not_mem_nil
  | _ :: _, h => List.forall_mem_cons.2
    ⟨readsBack_prettyAt level h.1, readsBack_members level h.2⟩

end

/-- Reading what was written gives the value back. -/
theorem parse?_pretty {value : Json} (h : value.Integral) : parse? value.pretty = some value := by
  have hread := readsBack_prettyAt 0 h (2 * value.pretty.toList.length + 2) []
    (Nat.le_succ _) trivial
  rw [List.append_nil] at hread
  unfold parse?
  rw [pretty] at hread ⊢
  simp only [hread]
  rfl

end StaticChain.Json
