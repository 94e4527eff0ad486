import TypedBindings.Proofs.Text.Parts
import TypedBindings.Proofs.TypeScript.Layouts

/-!
# Literals

Booleans, strings, big integers and arrays of these. Whatever their layout, the text of a literal
belongs to no other one.

* `IsLiteral`: the expressions that constants are written as.
* `IsLiteral.endsItself`: the characters of a literal say where it ends.
* `IsLiteral.eq_of_hasTokens`: a text has the tokens of at most one literal.
* `Strung`, `Arranged.strung`: where digits and quotes stand in the text of a literal.
-/

namespace TypedBindings.TypeScript

/-- An expression that a constant is written as. -/
inductive IsLiteral : Expr → Prop
  | bool (b : Bool) : IsLiteral (.bool b)
  | str (s : String) : IsLiteral (.str s)
  | bigInt (digits : String) : IsLiteral (.bigInt digits)
  | array {elements : List Expr} : (∀ e ∈ elements, IsLiteral e) → IsLiteral (.array elements)

section

variable {e e' : Expr} {elements elements' : List Expr} {r r' : List Char}

/-! ## Tokens of lists -/

/-- The first part, and a comma in front of every other one. -/
theorem listed_cons (part : List Token) (rest : List (List Token)) :
    listed (part :: rest) = part ++ rest.flatMap fun next => .mark .comma :: next :=
  Text.intercalate_cons ..

/-- A token of a list is one of the commas, or of one of the parts. -/
theorem mem_listed {parts : List (List Token)} {t : Token} (h : t ∈ listed parts) :
    t = .mark .comma ∨ ∃ part ∈ parts, t ∈ part :=
  (Text.mem_intercalate h).imp_left List.mem_singleton.1

/-! ## Literals without layout -/

/-- The characters of an expression with nothing between its tokens. -/
def Expr.bare (e : Expr) : List Char := bareText e.tokens

/-- The characters of all elements of an array but the first one, a comma in front of each. -/
def bareTail (elements : List Expr) : List Char := elements.flatMap fun e => ',' :: e.bare

theorem bareText_append (a b : List Token) : bareText (a ++ b) = bareText a ++ bareText b :=
  List.flatMap_append

theorem bare_bigInt (digits : String) :
    (Expr.bigInt digits).bare = "BigInt(".toList ++ ((Text.quote digits).toList ++ [')']) := by
  unfold Expr.bare bareText Expr.tokens
  simp [Token.text]

theorem bare_str (s : String) : (Expr.str s).bare = (Text.quote s).toList := by
  unfold Expr.bare bareText Expr.tokens
  simp [Token.text]

/-- Elements without blanks: the first, and each other one behind a comma. -/
theorem bareText_listed_cons (e : Expr) (rest : List Expr) :
    bareText (listed (Expr.tokenLists (e :: rest))) = e.bare ++ bareTail rest := by
  rw [tokenLists_eq_map, List.map_cons, listed_cons, bareText_append]
  refine congrArg (e.bare ++ ·) ?_
  unfold bareText bareTail
  rw [List.flatMap_map, List.flatMap_assoc]
  rfl

theorem bare_array_nil : (Expr.array []).bare = "[]".toList := by decide

/-- An array that is not empty, between its brackets. -/
theorem bare_array_cons (e : Expr) (rest : List Expr) :
    (Expr.array (e :: rest)).bare = '[' :: (e.bare ++ (bareTail rest ++ [']'])) := by
  have hopen : (Expr.array (e :: rest)).bare =
      '[' :: (bareText (listed (Expr.tokenLists (e :: rest))) ++ [']']) := by
    unfold Expr.bare
    rw [Expr.tokens, enclosed, List.cons_append, bareText, List.flatMap_cons, ← bareText,
      bareText_append]
    rfl
  rw [hopen, bareText_listed_cons, List.append_assoc]

/-- The character that the text of a literal begins with. -/
def Expr.initial : Expr → Char
  | .bool true => 't'
  | .bool false => 'f'
  | .str _ => '"'
  | .bigInt _ => 'B'
  | _ => '['

/-- The first character of a literal is told by its form. -/
theorem IsLiteral.exists_bare_eq_cons (h : IsLiteral e) : ∃ cs, e.bare = e.initial :: cs := by
  cases h with
  | bool b =>
    cases b with
    | true => exact ⟨"rue".toList, by decide⟩
    | false => exact ⟨"alse".toList, by decide⟩
  | str s =>
    rw [bare_str, Text.toList_quote]
    exact ⟨_, rfl⟩
  | bigInt digits =>
    rw [bare_bigInt]
    exact ⟨_, rfl⟩
  | @array elements _ =>
    cases elements with
    | nil => exact ⟨"]".toList, by decide⟩
    | cons first rest =>
      rw [bare_array_cons]
      exact ⟨_, rfl⟩

/-- No literal starts like what may stand between literals or behind them. -/
theorem IsLiteral.initial_ne (h : IsLiteral e) : e.initial ≠ ',' ∧ e.initial ≠ ']' := by
  cases h with
  | bool b => cases b <;> decide
  | _ => exact ⟨nofun, nofun⟩

/-! ## Where a literal ends -/

/-- The characters of an expression say where it ends, as long as literals are compared. -/
def Expr.EndsItself (e : Expr) : Prop :=
  ∀ ⦃e' : Expr⦄ ⦃r r' : List Char⦄, IsLiteral e' → e.bare ++ r = e'.bare ++ r' → e = e' ∧ r = r'

/-- The elements of an array are found from its text if each of them ends itself. -/
theorem bareTail_append_inj (hends : ∀ e ∈ elements, e.EndsItself)
    (hliteral : ∀ e ∈ elements', IsLiteral e)
    (h : bareTail elements ++ ']' :: r = bareTail elements' ++ ']' :: r') :
    elements = elements' ∧ r = r' := by
  -- a tail that goes on has a comma where one that ends has a bracket
  induction elements generalizing elements' with
  | nil =>
    cases elements' with
    | nil => exact ⟨rfl, List.tail_eq_of_cons_eq h⟩
    | cons e' rest' =>
      have hhead : ']' = ',' := List.head_eq_of_cons_eq h
      exact absurd hhead (by decide)
  | cons e rest ih =>
    cases elements' with
    | nil =>
      have hhead : ',' = ']' := List.head_eq_of_cons_eq h
      exact absurd hhead (by decide)
    | cons e' rest' =>
      unfold bareTail at h
      rw [List.flatMap_cons, List.flatMap_cons, List.cons_append, List.cons_append,
        List.cons_append, List.cons_append, List.append_assoc, List.append_assoc] at h
      obtain ⟨he, hrest⟩ := hends e List.mem_cons_self (hliteral e' List.mem_cons_self)
        (List.tail_eq_of_cons_eq h)
      obtain ⟨htail, hr⟩ := ih (fun f hf => hends f (List.mem_cons_of_mem _ hf))
        (fun f hf => hliteral f (List.mem_cons_of_mem _ hf)) hrest
      exact ⟨he ▸ htail ▸ rfl, hr⟩

/-- Where a further element stands, the array does not end. -/
theorem IsLiteral.bare_append_ne (h : IsLiteral e) (r r' : List Char) :
    e.bare ++ r ≠ ']' :: r' := by
  obtain ⟨cs, hbare⟩ := h.exists_bare_eq_cons
  rw [hbare]
  exact fun heq => h.initial_ne.2 (List.head_eq_of_cons_eq heq)

/-- Texts that agree start alike, so their literals have one form. -/
theorem IsLiteral.initial_eq (h : IsLiteral e) (h' : IsLiteral e')
    (heq : e.bare ++ r = e'.bare ++ r') : e.initial = e'.initial := by
  obtain ⟨cs, hbare⟩ := h.exists_bare_eq_cons
  obtain ⟨cs', hbare'⟩ := h'.exists_bare_eq_cons
  rw [hbare, hbare'] at heq
  exact List.head_eq_of_cons_eq heq

/-- Arrays of one text have the same elements, one of them empty or not. -/
theorem bare_array_append_inj (hends : ∀ e ∈ elements, e.EndsItself)
    (hall : ∀ e ∈ elements, IsLiteral e) (hall' : ∀ e ∈ elements', IsLiteral e)
    (h : (Expr.array elements).bare ++ r = (Expr.array elements').bare ++ r') :
    elements = elements' ∧ r = r' := by
  cases elements with
  | nil =>
    cases elements' with
    | nil => exact ⟨rfl, List.append_cancel_left h⟩
    | cons e' rest' =>
      rw [bare_array_nil, bare_array_cons, List.cons_append, List.append_assoc] at h
      exact absurd (List.tail_eq_of_cons_eq h).symm
        ((hall' e' List.mem_cons_self).bare_append_ne _ _)
  | cons e rest =>
    rw [bare_array_cons, List.cons_append, List.append_assoc] at h
    cases elements' with
    | nil =>
      exact absurd (List.tail_eq_of_cons_eq h) ((hall e List.mem_cons_self).bare_append_ne _ _)
    | cons e' rest' =>
      rw [bare_array_cons, List.cons_append, List.append_assoc, List.append_assoc] at h
      obtain ⟨he, hrest⟩ := hends e List.mem_cons_self (hall' e' List.mem_cons_self)
        (List.tail_eq_of_cons_eq h)
      rw [List.append_assoc] at hrest
      obtain ⟨htail, hr⟩ := bareTail_append_inj (fun f hf => hends f (List.mem_cons_of_mem _ hf))
        (fun f hf => hall' f (List.mem_cons_of_mem _ hf)) hrest
      exact ⟨he ▸ htail ▸ rfl, hr⟩

/-- **A literal says where it ends**: two that begin one text are one. -/
theorem IsLiteral.endsItself (h : IsLiteral e) : e.EndsItself := by
  -- literals of two forms differ in their first character already
  induction h with
  | bool b =>
    intro e' r r' h' heq
    have hinitial := (IsLiteral.bool b).initial_eq h' heq
    cases h' with
    | bool b' =>
      have hb : b = b' := by
        revert hinitial
        cases b <;> cases b' <;> decide
      subst hb
      exact ⟨rfl, List.append_cancel_left heq⟩
    | _ => cases b <;> simp [Expr.initial] at hinitial
  | str s =>
    intro e' r r' h' heq
    have hinitial := (IsLiteral.str s).initial_eq h' heq
    cases h' with
    | str s' =>
      rw [bare_str, bare_str] at heq
      obtain ⟨hs, hr⟩ := Text.quote_append_inj heq
      exact ⟨congrArg Expr.str hs, hr⟩
    | bool b' => cases b' <;> simp [Expr.initial] at hinitial
    | _ => simp [Expr.initial] at hinitial
  | bigInt digits =>
    intro e' r r' h' heq
    have hinitial := (IsLiteral.bigInt digits).initial_eq h' heq
    cases h' with
    | bigInt digits' =>
      rw [bare_bigInt, bare_bigInt, List.append_assoc, List.append_assoc, List.append_assoc,
        List.append_assoc] at heq
      obtain ⟨hdigits, hr⟩ := Text.quote_append_inj (List.append_cancel_left heq)
      exact ⟨congrArg Expr.bigInt hdigits, List.tail_eq_of_cons_eq hr⟩
    | bool b' => cases b' <;> simp [Expr.initial] at hinitial
    | _ => simp [Expr.initial] at hinitial
  | @array elements hall ih =>
    intro e' r r' h' heq
    have hinitial := (IsLiteral.array hall).initial_eq h' heq
    cases h' with
    | @array elements' hall' =>
      obtain ⟨helements, hr⟩ := bare_array_append_inj ih hall hall' heq
      exact ⟨congrArg Expr.array helements, hr⟩
    | bool b' => cases b' <;> simp [Expr.initial] at hinitial
    | _ => simp [Expr.initial] at hinitial

/-! ## The tokens of literals -/

/-- A character that belongs to no number, string or call. -/
def isFiller (c : Char) : Bool := !c.isDigit && c != '"' && c != '('

/-- A token that may stand in a literal. -/
def Token.IsOfLiteral : Token → Prop
  | .literal _ => True
  | .bigInt _ => True
  | .mark m => m.text.toList.all isFiller = true
  | _ => False

theorem IsLiteral.isOfLiteral (h : IsLiteral e) : ∀ t ∈ e.tokens, t.IsOfLiteral := by
  induction h with
  | bool b =>
    intro t ht
    rw [List.mem_singleton.1 ht]
    cases b <;> rfl
  | str s =>
    intro t ht
    rw [List.mem_singleton.1 ht]
    trivial
  | bigInt digits =>
    intro t ht
    rw [List.mem_singleton.1 ht]
    trivial
  | @array elements _ ih =>
    intro t ht
    rw [Expr.tokens, enclosed, List.cons_append, List.mem_cons, List.mem_append,
      List.mem_singleton, tokenLists_eq_map] at ht
    rcases ht with rfl | hinner | rfl
    · rfl
    · rcases mem_listed hinner with rfl | ⟨part, hpart, htpart⟩
      · rfl
      · obtain ⟨e, he, rfl⟩ := List.mem_map.1 hpart
        exact ih e he t htpart
    · rfl

/-! ## Literals under layout -/

/-- A character that squeezing never takes out. -/
def isSolid (c : Char) : Bool := c != ' ' && c != '\n' && c != ',' && c != '"'

/-- Nothing is squeezed out of solid characters. -/
theorem squeeze_append_of_solid {front : List Char} (hfront : front.all isSolid = true)
    (cs : List Char) : squeeze (front ++ cs) = front ++ squeeze cs := by
  induction front with
  | nil => rfl
  | cons c rest ih =>
    simp only [List.all_cons, isSolid, Bool.and_eq_true, bne_iff_ne] at hfront
    obtain ⟨⟨⟨⟨hblank, hbreak⟩, hcomma⟩, hquote⟩, hrest⟩ := hfront
    rw [List.cons_append, squeeze_cons hquote, if_neg (by simp [hblank, hbreak, hcomma]),
      ih hrest, List.cons_append]

/-- Squeezing takes nothing out of an expression without layout. -/
def Expr.IsSolid (e : Expr) : Prop := ∀ r, squeeze (e.bare ++ r) = e.bare ++ squeeze r

/-- Nothing is squeezed out of the elements of an array. -/
theorem squeeze_bareTail_append (hsolid : ∀ e ∈ elements, e.IsSolid)
    (hall : ∀ e ∈ elements, IsLiteral e) (r : List Char) :
    squeeze (bareTail elements ++ r) = bareTail elements ++ squeeze r := by
  induction elements with
  | nil => rfl
  | cons e rest ih =>
    have hrest := ih (fun f hf => hsolid f (List.mem_cons_of_mem _ hf)) fun f hf =>
      hall f (List.mem_cons_of_mem _ hf)
    have he := hsolid e List.mem_cons_self (bareTail rest ++ r)
    -- the comma in front of the element is kept, since no closing bracket follows it
    have hkept : (squeeze (e.bare ++ (bareTail rest ++ r))).head? ≠ some ']' := by
      obtain ⟨cs, hbare⟩ := (hall e List.mem_cons_self).exists_bare_eq_cons
      rw [he, hbare, List.cons_append, List.head?_cons]
      exact fun hhead => (hall e List.mem_cons_self).initial_ne.2 (Option.some.inj hhead)
    have hsplit : bareTail (e :: rest) = ',' :: (e.bare ++ bareTail rest) := List.flatMap_cons
    rw [hsplit, List.cons_append, List.append_assoc, squeeze_cons (by decide),
      if_neg (by simp [hkept]), he, hrest, List.cons_append, List.append_assoc]

/-- **A literal without layout is kept by squeezing**: its commas have elements behind them. -/
theorem IsLiteral.isSolid (h : IsLiteral e) : e.IsSolid := by
  have hclose : ∀ cs, squeeze ([']'] ++ cs) = [']'] ++ squeeze cs :=
    squeeze_append_of_solid (by decide)
  induction h with
  | bool b => exact squeeze_append_of_solid (by cases b <;> decide)
  | str s =>
    intro r
    rw [bare_str, squeeze_quote]
  | bigInt digits =>
    intro r
    rw [bare_bigInt, List.append_assoc, List.append_assoc,
      squeeze_append_of_solid (by decide), squeeze_quote, squeeze_append_of_solid (by decide),
      List.append_assoc, List.append_assoc]
  | @array elements hall ih =>
    cases elements with
    | nil => exact squeeze_append_of_solid (by decide)
    | cons e rest =>
      intro r
      have hopen : ∀ cs, squeeze (['['] ++ cs) = ['['] ++ squeeze cs :=
        squeeze_append_of_solid (by decide)
      have htail := squeeze_bareTail_append (fun f hf => ih f (List.mem_cons_of_mem _ hf))
        (fun f hf => hall f (List.mem_cons_of_mem _ hf)) ([']'] ++ r)
      rw [bare_array_cons, ← List.singleton_append, List.append_assoc, List.append_assoc,
        List.append_assoc, hopen, ih e List.mem_cons_self, htail, hclose, List.append_assoc,
        List.append_assoc, List.append_assoc]

/-- **A text is the text of one literal only**, however the literals are laid out. -/
theorem IsLiteral.eq_of_hasTokens {s : String} (h : IsLiteral e) (h' : IsLiteral e')
    (hs : HasTokens e.tokens s) (hs' : HasTokens e'.tokens s) : e = e' := by
  have hbare := hs.squeeze_eq fun name hname => absurd (h.isOfLiteral _ hname) id
  have hbare' := hs'.squeeze_eq fun name hname => absurd (h'.isOfLiteral _ hname) id
  have hkept := h.isSolid []
  have hkept' := h'.isSolid []
  rw [List.append_nil] at hkept hkept'
  have heq : e.bare ++ squeeze [] = e'.bare ++ squeeze [] := by
    rw [← hkept, ← hkept']
    exact hbare.symm.trans hbare'
  exact (h.endsItself h' heq).1

end

/-! ## Digits and quotes -/

/-- **A text that has words in their order**, with neither digits nor quotes nor calls between
them. -/
inductive Strung : List String → List Char → Prop
  | done : Strung [] []
  | filler {words : List String} {cs : List Char} {c : Char} :
    isFiller c = true → Strung words cs → Strung words (c :: cs)
  | word {words : List String} {cs : List Char} (word : String) :
    Strung words cs → Strung (word :: words) (word.toList ++ cs)

/-- The word that a token is: a string or a big integer. -/
def Token.word? : Token → Option String
  | .literal s => some (Text.quote s)
  | .bigInt digits => some ("BigInt(" ++ Text.quote digits ++ ")")
  | _ => none

/-- Fillers in front of a word change nothing. -/
theorem Strung.fillers {words : List String} {front cs : List Char}
    (hfront : front.all isFiller = true) (h : Strung words cs) : Strung words (front ++ cs) := by
  induction front with
  | nil => exact h
  | cons c rest ih =>
    rw [List.all_cons, Bool.and_eq_true] at hfront
    exact .filler hfront.1 (ih hfront.2)

/-- However a literal is laid out, its words stand in the text in their order. -/
theorem Arranged.strung {g g' : Gap} {tokens : List Token} {cs : List Char}
    (h : Arranged g tokens cs g') (hof : ∀ t ∈ tokens, t.IsOfLiteral) :
    Strung (tokens.filterMap Token.word?) cs := by
  induction h with
  | done => exact .done
  | blank _ ih => exact .filler (by decide) (ih hof)
  | lineBreak _ _ ih => exact .filler (by decide) (ih hof)
  | extraComma _ ih => exact .filler (by decide) (ih hof)
  | @token _ _ t tokens cs _ _ ih =>
    have hrest := ih fun u hu => hof u (List.mem_cons_of_mem _ hu)
    have ht := hof t List.mem_cons_self
    -- strings and big integers are words, and marks are made of fillers
    cases t with
    | literal s => exact .word (Text.quote s) hrest
    | bigInt digits => exact .word ("BigInt(" ++ Text.quote digits ++ ")") hrest
    | mark m => exact hrest.fillers ht
    | lead _ => exact ht.elim
    | name _ => exact ht.elim
    | number _ => exact ht.elim

/-- Digits and a sign stand in a string literal as they are. -/
theorem quote_toString (n : Int) : Text.quote (toString n) = "\"" ++ toString n ++ "\"" := by
  have hdigits : (Nat.toDigits 10 n.natAbs).flatMap Text.escape = Nat.toDigits 10 n.natAbs := by
    rw [List.flatMap_congr fun c hc => Text.escape_of_isDigit (Text.isDigit_toDigits hc)]
    exact List.flatMap_singleton' _
  have hkept : (toString n).toList.flatMap Text.escape = (toString n).toList := by
    rw [Text.toList_toString_int]
    split
    · rw [List.flatMap_cons, hdigits]
      rfl
    · exact hdigits
  apply String.toList_injective
  rw [Text.toList_quote, hkept, String.toList_append, String.toList_append]
  rfl

theorem word?_bigInt (n : Int) :
    Token.word? (.bigInt (toString n)) = some ("BigInt(\"" ++ toString n ++ "\")") := by
  rw [Token.word?, quote_toString]
  apply congrArg some
  apply String.toList_injective
  simp

/-- The words of an array are those of its elements. -/
theorem filterMap_word?_array (elements : List Expr) :
    (Expr.array elements).tokens.filterMap Token.word? =
      elements.flatMap fun e => e.tokens.filterMap Token.word? := by
  have hlisted : (listed (Expr.tokenLists elements)).filterMap Token.word? =
      elements.flatMap fun e => e.tokens.filterMap Token.word? := by
    rw [tokenLists_eq_map]
    cases elements with
    | nil => rfl
    | cons e rest =>
      rw [List.map_cons, listed_cons, List.filterMap_append, List.filterMap_flatMap,
        List.flatMap_map, List.flatMap_cons]
      rfl
  rw [← hlisted, Expr.tokens, enclosed]
  simp [List.filterMap_cons, Token.word?]

end TypedBindings.TypeScript
