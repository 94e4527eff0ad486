import TypedBindings.Json.Printer
import TypedBindings.Proofs.Json.Leaves
import TypedBindings.Proofs.Text.Number
import TypedBindings.Proofs.Text.Quoted

/-!
# A document that is written reads back

The reader goes through the text that was written, value by value. What stands behind a value in a
written text cannot belong to it, so each part is read up to its own end.

* `readNumber_write`, `readName_write`: numbers and names read back.
* `readItems_write`, `readMembers_write`: so do items and members, up to the end of what holds them.
* `readValue_write`: so does a plain document, with any text behind it that ends a value.
* `ofText_write`, `parse?_write`: its text is read whole, if the limit leaves room for its nesting.
-/

namespace TypedBindings.Json

open Text

/-- A text in which a value that stands before it is at its end. -/
def EndsValue (rest : List Char) : Prop := ∀ c ∈ rest.head?, c = ',' ∨ c = ']' ∨ c = '}'

theorem endsValue_nil : EndsValue [] := fun _ h => by cases h

/-- The characters that may follow a value inside a list or an object. -/
theorem endsValue_cons {c : Char} (h : c = ',' ∨ c = ']' ∨ c = '}') (rest : List Char) :
    EndsValue (c :: rest) := by
  rintro _ ⟨⟩; exact h

/-- What ends a value is no part of a number, and no blank. -/
theorem EndsValue.not_mem {rest : List Char} (h : EndsValue rest) {c : Char}
    (hc : c ∈ rest.head?) :
    c.isDigit = false ∧ c ≠ '.' ∧ c ≠ 'e' ∧ c ≠ 'E' ∧ isSpace c = false := by
  rcases h c hc with rfl | rfl | rfl <;> decide

/-- Nothing is skipped in front of a character that is no space. -/
theorem skipSpace_cons {c : Char} (h : isSpace c = false) (rest : List Char) :
    skipSpace (c :: rest) = c :: rest := by
  unfold skipSpace; rw [List.dropWhile_cons_of_neg (by simp [h])]

/-! ## Numbers -/

section

variable {digits rest : List Char} {n : Nat}

/-- A number ends where the digits end, since no digit follows a value. -/
theorem EndsValue.takeWhile_isDigit (hrest : EndsValue rest) (h : ∀ c ∈ digits, c.isDigit = true) :
    (digits ++ rest).takeWhile Char.isDigit = digits ∧
      (digits ++ rest).dropWhile Char.isDigit = rest := by
  rw [List.takeWhile_append_of_pos h, List.dropWhile_append_of_pos h]
  cases rest with
  | nil => simp
  | cons c rest =>
    have hc := (hrest.not_mem (c := c) rfl).1
    simp [hc]

/-- The whole part is read in full, without a leading zero that would end it early. -/
theorem readWhole?_decimal (hd : IsDecimal digits n) (hrest : EndsValue rest) :
    readWhole? (digits ++ rest) = some (digits, rest) := by
  by_cases hzero : digits.head? = some '0'
  -- a zero is read by itself, other digits as far as they go
  · rw [hd.no_zero hzero, List.singleton_append, readWhole?]
    have hnext : rest.head?.any Char.isDigit = false := by
      cases h : rest.head? with
      | none => rfl
      | some c => exact (hrest.not_mem (c := c) h).1
    rw [hnext]; rfl
  · obtain ⟨htake, hdrop⟩ := hrest.takeWhile_isDigit hd.isDigit
    have hempty : digits.isEmpty = false := by simpa using hd.ne_nil
    unfold readWhole?
    split
    · next h =>
      obtain ⟨d, ds, rfl⟩ := List.exists_cons_of_ne_nil hd.ne_nil
      cases h
      exact absurd rfl hzero
    · simp only [htake, hdrop, hempty]; rfl

/-- Nothing that may follow a value starts a fraction. -/
theorem readFraction?_end (hrest : EndsValue rest) : readFraction? rest = some ([], rest) := by
  unfold readFraction?
  split
  · exact absurd rfl (hrest.not_mem (c := '.') rfl).2.1
  · rfl

/-- Nothing that may follow a value starts an exponent. -/
theorem readExponent?_end (hrest : EndsValue rest) : readExponent? rest = some (none, rest) := by
  unfold readExponent?
  cases rest with
  | nil => rfl
  | cons c rest =>
    obtain ⟨-, -, he, hE, -⟩ := hrest.not_mem (c := c) rfl
    simp [he, hE]

/-- The parts of a numeral that is only digits. -/
theorem readParts_decimal (hd : IsDecimal digits n) (hrest : EndsValue rest) (isNegative : Bool) :
    (do
      let (whole, rest) ← readWhole? (digits ++ rest)
      let (fraction, rest) ← readFraction? rest
      let (exponent, rest) ← readExponent? rest
      return ((⟨isNegative, whole, fraction, exponent⟩ : Numeral), rest)) =
      some (⟨isNegative, digits, [], none⟩, rest) := by
  simp only [readWhole?_decimal hd hrest, readFraction?_end hrest, readExponent?_end hrest,
    Option.bind_eq_bind, Option.bind_some, Option.pure_def]

/-- A numeral that does not begin with a minus has no sign. -/
theorem Numeral.read?_cons {c : Char} (hc : c ≠ '-') (cs : List Char) :
    Numeral.read? (c :: cs) = (do
      let (whole, rest) ← readWhole? (c :: cs)
      let (fraction, rest) ← readFraction? rest
      let (exponent, rest) ← readExponent? rest
      return ((⟨false, whole, fraction, exponent⟩ : Numeral), rest)) := by
  unfold Numeral.read?
  split
  next hsign =>
    split at hsign
    · next heq => cases heq; exact absurd rfl hc
    · cases hsign; rfl

/-- A decimal is read as its digits, without sign, fraction or exponent. -/
theorem Numeral.read?_natural (hd : IsDecimal digits n) (hrest : EndsValue rest) :
    Numeral.read? (digits ++ rest) = some (⟨false, digits, [], none⟩, rest) := by
  have hparts := readParts_decimal hd hrest false
  obtain ⟨d, ds, rfl⟩ := List.exists_cons_of_ne_nil hd.ne_nil
  have hminus : d ≠ '-' := by
    rintro rfl
    exact absurd (hd.isDigit _ List.mem_cons_self) (by decide)
  rw [List.cons_append] at hparts ⊢
  rw [Numeral.read?_cons hminus]
  exact hparts

theorem Numeral.read?_negative (hd : IsDecimal digits n) (hrest : EndsValue rest) :
    Numeral.read? ('-' :: (digits ++ rest)) = some (⟨true, digits, [], none⟩, rest) :=
  readParts_decimal hd hrest true

/-- Digits below the word's size are an integer and not a float. -/
theorem Numeral.value_natural (hd : IsDecimal digits n) (hn : n < wordSize) (literal : String) :
    Numeral.value ⟨false, digits, [], none⟩ literal = .int n := by
  simp [Numeral.value, hd.value, hn]

/-- The negative integers reach one further than half of the word's size. -/
theorem Numeral.value_negative (hd : IsDecimal digits n) (hpos : 0 < n) (hn : n ≤ wordSize / 2)
    (literal : String) : Numeral.value ⟨true, digits, [], none⟩ literal = .int (-n) := by
  simp [Numeral.value, hd.value, hpos, hn]

/-- An integer of 64 bits reads back. -/
theorem readNumber_write {n : Int} (hn : FitsWord n) (hrest : EndsValue rest) :
    readNumber ((toString n).toList ++ rest) = (.int n, some rest) := by
  obtain ⟨hlow, hhigh⟩ := hn
  have hd := isDecimal_toDigits n.natAbs
  unfold readNumber
  rw [toList_toString_int]
  by_cases hneg : n < 0
  · rw [if_pos hneg, List.cons_append, Numeral.read?_negative hd hrest]
    dsimp only
    rw [Numeral.value_negative hd (by omega) (by omega), Int.ofNat_natAbs_of_nonpos (by omega),
      Int.neg_neg]
  · rw [if_neg hneg, Numeral.read?_natural hd hrest]
    dsimp only
    rw [Numeral.value_natural hd (by omega), Int.natAbs_of_nonneg (by omega)]

end

/-! ## Values -/

theorem isSpace_of_isDigit {c : Char} (hc : c.isDigit = true) : isSpace c = false := by
  rw [Bool.eq_false_iff]
  intro h
  simp only [isSpace, Bool.or_eq_true, beq_iff_eq] at h
  rcases h with ((rfl | rfl) | rfl) | rfl <;> cases hc

/-- Where no literal, string, array or object begins, a number is read. -/
theorem readValue_number {c : Char} (hc : c.isDigit = true ∨ c = '-') (fuel room : Nat)
    (cs : List Char) : readValue (fuel + 1) room (c :: cs) = readNumber (c :: cs) := by
  have hspace : isSpace c = false := by
    rcases hc with hc | rfl
    · exact isSpace_of_isDigit hc
    · rfl
  rw [readValue, skipSpace_cons hspace]
  split
  all_goals try rfl
  all_goals
    next h =>
      cases h
      rcases hc with hc | hc <;> cases hc

/-- An integer is written with a digit or a minus sign first, so it begins a value. -/
theorem toString_int_head (n : Int) :
    ∃ c cs, (toString n).toList = c :: cs ∧ (c.isDigit = true ∨ c = '-') := by
  rw [toList_toString_int]
  split
  · exact ⟨'-', _, rfl, Or.inr rfl⟩
  · obtain ⟨d, ds, hd⟩ := List.exists_cons_of_ne_nil
      (Nat.toDigits_ne_nil (b := 10) (n := n.natAbs))
    exact ⟨d, ds, hd, Or.inl (isDigit_toDigits (n := n.natAbs) (hd ▸ List.mem_cons_self))⟩

/-- A written string as the reader meets it: a quote, the escaped characters, a quote. -/
theorem toList_quote_append (text : String) (rest : List Char) :
    (quote text).toList ++ rest = '"' :: (text.toList.flatMap escape ++ '"' :: rest) := by
  rw [toList_quote, List.cons_append, List.cons_append, List.append_assoc, List.singleton_append]

/-- The name of a member is read back before its colon. -/
theorem readName_write (name : String) (rest : List Char) :
    readName ((quote name).toList ++ rest) = some (some name, rest) := by
  rw [toList_quote_append, readName]
  simp only [readQuoted_escape, String.ofList_toList]

/-- A value reads back from its text, whatever ends it there. -/
def ReadsBack (v : Json) : Prop :=
  ∀ fuel room rest, 2 * v.write.toList.length ≤ fuel → v.depth ≤ room → EndsValue rest →
    readValue fuel room (v.write.toList ++ rest) = (v, some rest)

/-- The text of a value begins with a character that neither stands between values nor closes
them. -/
def BeginsValue (cs : List Char) : Prop :=
  ∃ c rest, cs = c :: rest ∧ isSpace c = false ∧ c ≠ ']'

theorem toList_write_arr (items : List Json) :
    (write (.arr items)).toList = '[' :: (writeItems items).toList ++ [']'] := by
  rw [write, String.toList_append, String.toList_append]
  rfl

theorem toList_write_obj (members : List (String × Json)) :
    (write (.obj members)).toList = '\x7b' :: (writeMembers members).toList ++ ['\x7d'] := by
  rw [write, String.toList_append, String.toList_append]
  rfl

/-- The items of a list have a comma between two of them and none behind the last. -/
theorem toList_writeItems_cons (v : Json) {rest : List Json} (hne : rest ≠ []) :
    (writeItems (v :: rest)).toList = v.write.toList ++ ',' :: (writeItems rest).toList := by
  obtain ⟨w, rest, rfl⟩ := List.exists_cons_of_ne_nil hne
  rw [writeItems, String.toList_append, String.toList_append]
  · simp
  · exact hne

theorem toList_writeMembers_cons (name : String) (v : Json) {rest : List (String × Json)}
    (hne : rest ≠ []) :
    (writeMembers ((name, v) :: rest)).toList =
      (quote name).toList ++ ':' :: (v.write.toList ++ ',' :: (writeMembers rest).toList) := by
  obtain ⟨w, rest, rfl⟩ := List.exists_cons_of_ne_nil hne
  rw [writeMembers]
  · simp
  · exact hne

/-- No written value starts with a space or with a bracket that closes. -/
theorem beginsValue_write {v : Json} (hv : v.IsPlain) : BeginsValue v.write.toList := by
  cases v with
  | null => exact ⟨'n', _, rfl, rfl, by decide⟩
  | bool b =>
    cases b
    · exact ⟨'f', _, rfl, rfl, by decide⟩
    · exact ⟨'t', _, rfl, rfl, by decide⟩
  | int n =>
    obtain ⟨c, cs, h, hc⟩ := toString_int_head n
    rw [write, h]
    refine ⟨c, cs, rfl, ?_, ?_⟩
    · rcases hc with hc | rfl
      · exact isSpace_of_isDigit hc
      · rfl
    · rintro rfl
      rcases hc with hc | hc <;> cases hc
  | real literal => exact (hv.of_leaf rfl).elim
  | str s => rw [write, toList_quote]; exact ⟨'"', _, rfl, rfl, by decide⟩
  | arr items => rw [toList_write_arr]; exact ⟨'[', _, rfl, rfl, by decide⟩
  | obj members => rw [toList_write_obj]; exact ⟨'\x7b', _, rfl, rfl, by decide⟩
  | defect kind => exact (hv.of_leaf rfl).elim

/-! ## Reading a written value -/

/-- Each step of the reader takes one unit of fuel. There is one, since a text that is written is
not empty. -/
theorem ReadsBack.of_succ {v : Json} (hv : v.IsPlain)
    (h : ∀ fuel room rest, 2 * v.write.toList.length ≤ fuel + 1 → v.depth ≤ room → EndsValue rest →
      readValue (fuel + 1) room (v.write.toList ++ rest) = (v, some rest)) : ReadsBack v := by
  intro fuel room rest hfuel hroom hrest
  cases fuel with
  | zero =>
    obtain ⟨c, cs, htext, -⟩ := beginsValue_write hv
    rw [htext, List.length_cons] at hfuel
    omega
  | succ fuel => exact h fuel room rest hfuel hroom hrest

theorem readsBack_null : ReadsBack .null := by
  refine .of_succ isPlain_null fun fuel room rest _ _ _ => ?_
  rw [write, readValue]
  rfl

theorem readsBack_bool (b : Bool) : ReadsBack (.bool b) := by
  refine .of_succ (isPlain_bool b) fun fuel room rest _ _ _ => ?_
  cases b <;> rw [write, readValue] <;> rfl

theorem readsBack_str (text : String) : ReadsBack (.str text) := by
  refine .of_succ (isPlain_str text) fun fuel room rest _ _ _ => ?_
  rw [write, toList_quote_append, readValue, skipSpace_cons rfl]
  simp only [readQuoted_escape, String.ofList_toList]

/-- An integer is read back up to the end of its digits, whatever may follow it. -/
theorem readsBack_int {n : Int} (hn : FitsWord n) : ReadsBack (.int n) := by
  refine .of_succ (isPlain_int.2 hn) fun fuel room rest _ _ hrest => ?_
  obtain ⟨c, cs, htext, hc⟩ := toString_int_head n
  have hread := readNumber_write hn hrest
  rw [write]
  rw [htext, List.cons_append] at hread ⊢
  rw [readValue_number hc, hread]

section

variable {fuel room : Nat} {cs rest : List Char} {v : Json}

/-- The last item of a list is followed by the bracket that closes it. -/
theorem readItems_last (hv : readValue fuel room cs = (v, some (']' :: rest))) :
    readItems (fuel + 1) room cs = ([v], some rest) := by
  rw [readItems, hv]; dsimp only; rw [skipSpace_cons rfl]; rfl

/-- An item that a comma follows leaves the others to be read. -/
theorem readItems_next (hv : readValue fuel room cs = (v, some (',' :: rest))) {vs : List Json}
    {after : Option (List Char)} (hvs : readItems fuel room rest = (vs, after)) :
    readItems (fuel + 1) room cs = (v :: vs, after) := by
  rw [readItems, hv]; dsimp only; rw [skipSpace_cons rfl]
  simp only [hvs]

variable {name : String}

/-- The last member of an object is followed by the brace that closes it. -/
theorem readMembers_last
    (hv : readValue fuel room cs = (v, some ('\x7d' :: rest))) :
    readMembers (fuel + 1) room ((quote name).toList ++ ':' :: cs) = ([(name, v)], some rest) := by
  rw [readMembers, toList_quote_append, skipSpace_cons rfl, ← toList_quote_append, readName_write]
  dsimp only
  rw [skipSpace_cons rfl]
  simp only [hv]
  rw [skipSpace_cons rfl]
  rfl

/-- A member that a comma follows leaves the others to be read. -/
theorem readMembers_next (hv : readValue fuel room cs = (v, some (',' :: rest)))
    {ms : List (String × Json)} {after : Option (List Char)}
    (hms : readMembers fuel room rest = (ms, after)) :
    readMembers (fuel + 1) room ((quote name).toList ++ ':' :: cs) = ((name, v) :: ms, after) := by
  rw [readMembers, toList_quote_append, skipSpace_cons rfl, ← toList_quote_append, readName_write]
  dsimp only
  rw [skipSpace_cons rfl]
  simp only [hv]
  rw [skipSpace_cons rfl]
  simp only [hms]
  rfl

end

/-- The items of an array read back, up to its end. -/
theorem readItems_write {items : List Json} (hback : ∀ v ∈ items, v.ReadsBack) (hne : items ≠ []) :
    ∀ fuel room rest, 2 * (writeItems items).toList.length + 1 ≤ fuel →
      depthOfItems items ≤ room →
      readItems fuel room ((writeItems items).toList ++ ']' :: rest) = (items, some rest) := by
  induction items with
  | nil => exact absurd rfl hne
  | cons v others ih =>
    intro fuel room rest hfuel hroom
    rw [depthOfItems] at hroom
    obtain ⟨fuel, rfl⟩ := Nat.exists_eq_succ_of_ne_zero (n := fuel) (by omega)
    have hv := hback v List.mem_cons_self fuel room
    -- a bracket ends the last item, a comma ends any other
    by_cases hlast : others = []
    · subst hlast
      rw [writeItems] at hfuel ⊢
      exact readItems_last (hv _ (by omega) (by omega) (endsValue_cons (Or.inr (Or.inl rfl)) _))
    · rw [toList_writeItems_cons v hlast] at hfuel ⊢
      rw [List.length_append, List.length_cons] at hfuel
      rw [List.append_assoc, List.cons_append]
      exact readItems_next (hv _ (by omega) (by omega) (endsValue_cons (Or.inl rfl) _))
        (ih (fun w hw => hback w (List.mem_cons_of_mem _ hw)) hlast _ _ _ (by omega) (by omega))

/-- The members of an object read back, up to its end. -/
theorem readMembers_write {members : List (String × Json)} (hback : ∀ m ∈ members, m.2.ReadsBack)
    (hne : members ≠ []) :
    ∀ fuel room rest, 2 * (writeMembers members).toList.length + 1 ≤ fuel →
      depthOfMembers members ≤ room →
      readMembers fuel room ((writeMembers members).toList ++ '\x7d' :: rest) =
        (members, some rest) := by
  induction members with
  | nil => exact absurd rfl hne
  | cons m others ih =>
    obtain ⟨name, v⟩ := m
    intro fuel room rest hfuel hroom
    rw [depthOfMembers] at hroom
    obtain ⟨fuel, rfl⟩ := Nat.exists_eq_succ_of_ne_zero (n := fuel) (by omega)
    have hback' : v.ReadsBack := hback _ List.mem_cons_self
    have hv := hback' fuel room
    -- Fuel is spent on the member and on the rest; their texts are shorter than the whole.
    by_cases hlast : others = []
    · subst hlast
      rw [writeMembers, String.toList_append, String.toList_append] at hfuel ⊢
      rw [List.length_append] at hfuel
      rw [List.append_assoc, List.append_assoc]
      exact readMembers_last (hv _ (by omega) (by omega) (endsValue_cons (Or.inr (Or.inr rfl)) _))
    · rw [toList_writeMembers_cons name v hlast] at hfuel ⊢
      simp only [List.length_append, List.length_cons] at hfuel
      rw [List.append_assoc, List.cons_append, List.append_assoc, List.cons_append]
      exact readMembers_next (hv _ (by omega) (by omega) (endsValue_cons (Or.inl rfl) _))
        (ih (fun w hw => hback w (List.mem_cons_of_mem _ hw)) hlast _ _ _ (by omega) (by omega))

/-- A list or an object is given where there is room for one more level. -/
theorem enclose_of_pos {α : Type} {room : Nat} (hroom : 0 < room) (make : α → Json) (parts : α)
    (rest : Option (List Char)) : enclose room make (parts, rest) = (make parts, rest) := by
  rw [enclose, if_neg (by omega)]

/-- A bracket in front of a value opens a list, at the cost of one level. -/
theorem readValue_items {cs : List Char} (hcs : BeginsValue cs) (fuel room : Nat) :
    readValue (fuel + 1) room ('[' :: cs) = enclose room .arr (readItems fuel (room - 1) cs) := by
  obtain ⟨c, rest, rfl, hspace, hclose⟩ := hcs
  rw [readValue, skipSpace_cons rfl]
  simp only [skipSpace_cons hspace]
  split
  · next h => cases h; exact absurd rfl hclose
  · rfl

/-- A brace in front of a name opens an object, at the cost of one level. -/
theorem readValue_members (name : String) (cs : List Char) (fuel room : Nat) :
    readValue (fuel + 1) room ('\x7b' :: ((quote name).toList ++ cs)) =
      enclose room .obj (readMembers fuel (room - 1) ((quote name).toList ++ cs)) := by
  rw [toList_quote_append, readValue, skipSpace_cons rfl]
  simp only [skipSpace_cons (c := '"') rfl]
  rfl

theorem BeginsValue.append {cs : List Char} (h : BeginsValue cs) (more : List Char) :
    BeginsValue (cs ++ more) := by
  obtain ⟨c, rest, rfl, hspace, hclose⟩ := h
  exact ⟨c, rest ++ more, rfl, hspace, hclose⟩

theorem beginsValue_writeItems {items : List Json} (hplain : ∀ v ∈ items, v.IsPlain)
    (hne : items ≠ []) (rest : List Char) :
    BeginsValue ((writeItems items).toList ++ rest) := by
  obtain ⟨v, others, rfl⟩ := List.exists_cons_of_ne_nil hne
  have hv := beginsValue_write (hplain v List.mem_cons_self)
  by_cases hlast : others = []
  · subst hlast; rw [writeItems]; exact hv.append _
  · rw [toList_writeItems_cons v hlast, List.append_assoc]; exact hv.append _

/-- The members of an object that has some start with a quoted name. -/
theorem writeMembers_eq {members : List (String × Json)} (hne : members ≠ []) :
    ∃ name cs, (writeMembers members).toList = (quote name).toList ++ cs := by
  obtain ⟨⟨name, v⟩, others, rfl⟩ := List.exists_cons_of_ne_nil hne
  by_cases hlast : others = []
  · subst hlast
    rw [writeMembers, String.toList_append, String.toList_append, List.append_assoc]
    exact ⟨name, _, rfl⟩
  · rw [toList_writeMembers_cons name v hlast]; exact ⟨name, _, rfl⟩

/-- A list is read back if its items are, with room for one level more than they need. -/
theorem readsBack_arr {items : List Json} (hplain : ∀ v ∈ items, v.IsPlain)
    (hback : ∀ v ∈ items, v.ReadsBack) : ReadsBack (.arr items) := by
  refine .of_succ (isPlain_arr.2 hplain) fun fuel room rest hfuel hroom _ => ?_
  -- the two brackets pay for the step into the items
  rw [toList_write_arr] at hfuel ⊢
  simp only [List.length_append, List.length_cons, List.length_nil] at hfuel
  rw [depth] at hroom
  rw [List.cons_append, List.cons_append, List.append_assoc, List.singleton_append]
  by_cases hempty : items = []
  · subst hempty
    rw [writeItems, readValue]
    exact enclose_of_pos (by omega) _ _ _
  · rw [readValue_items (beginsValue_writeItems hplain hempty _),
      readItems_write hback hempty _ _ _ (by omega) (by omega)]
    exact enclose_of_pos (by omega) _ _ _

/-- An object is read back if the values of its members are. -/
theorem readsBack_obj {members : List (String × Json)} (hplain : ∀ m ∈ members, m.2.IsPlain)
    (hback : ∀ m ∈ members, m.2.ReadsBack) : ReadsBack (.obj members) := by
  refine .of_succ (isPlain_obj.2 hplain) fun fuel room rest hfuel hroom _ => ?_
  rw [toList_write_obj] at hfuel ⊢
  simp only [List.length_append, List.length_cons, List.length_nil] at hfuel
  rw [depth] at hroom
  rw [List.cons_append, List.cons_append, List.append_assoc, List.singleton_append]
  by_cases hempty : members = []
  · subst hempty
    rw [writeMembers, readValue]
    exact enclose_of_pos (by omega) _ _ _
  · have hmembers := readMembers_write hback hempty fuel (room - 1) rest (by omega) (by omega)
    obtain ⟨name, cs, hname⟩ := writeMembers_eq hempty
    rw [hname, List.append_assoc] at hmembers ⊢
    rw [readValue_members, hmembers]
    exact enclose_of_pos (by omega) _ _ _

/-- **A plain document reads back from its text**, whatever ends it there. -/
theorem readValue_write {v : Json} (hv : v.IsPlain) : v.ReadsBack := by
  -- over the document: the values in it read back with less fuel and less room
  induction hv with
  | @leaf v hleaf h =>
    cases v with
    | null => exact readsBack_null
    | bool b => exact readsBack_bool b
    | int n => exact readsBack_int h
    | real literal => exact h.elim
    | str text => exact readsBack_str text
    | arr items => cases hleaf
    | obj members => cases hleaf
    | defect kind => exact h.elim
  | arr hplain ih => exact readsBack_arr hplain ih
  | obj hplain ih => exact readsBack_obj hplain ih

/-- **The text of a plain document is read whole**, if its nesting is within the limit. -/
theorem ofText_write {v : Json} (hv : v.IsPlain) {limit : Nat} (hlimit : v.depth ≤ limit) :
    ofText v.write limit = (v, true) := by
  have hread := readValue_write hv (2 * v.write.toList.length + 2) limit [] (by omega) hlimit
    endsValue_nil
  rw [List.append_nil] at hread
  unfold ofText
  dsimp only
  rw [hread]
  rfl

/-- A written value is the whole text, so nothing is left over when it has been read. -/
theorem parse?_write {v : Json} (hv : v.IsPlain) {limit : Nat} (hlimit : v.depth ≤ limit) :
    parse? v.write limit = some v := by
  unfold parse?
  rw [ofText_write hv hlimit]
  simp [hv.isSound]

end TypedBindings.Json
