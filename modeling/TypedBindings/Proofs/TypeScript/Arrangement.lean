import Mathlib.Data.List.Forall2
import TypedBindings.Proofs.Text.Number
import TypedBindings.Proofs.Text.Quoted
import TypedBindings.Proofs.TypeScript.Token

/-!
# Arrangements of tokens

A layout puts blanks and line breaks between tokens, and perhaps an extra comma in front of a
bracket that closes. What is left when all that is taken out does not depend on the layout.

* `Arranged`: a text that has tokens in their order, and no line break behind a word that leads.
* `squeeze`: a text without blanks, line breaks and extra commas outside its string literals.
* `Arranged.squeeze_eq`: squeezing an arrangement gives what squeezing its bare tokens gives.
-/

namespace TypedBindings.TypeScript

/-- What may stand at a place between tokens. -/
inductive Gap where
  /-- Blanks and line breaks. -/
  | free
  /-- Blanks, but no line break: a word that leads is in front. -/
  | held
  /-- Blanks and line breaks up to a closing bracket: an extra comma is in front. -/
  | closing
deriving DecidableEq, Repr

/-- What may stand behind a token. -/
def Token.after : Token → Gap
  | .lead _ => .held
  | _ => .free

/-- Whether a token may follow. -/
def Gap.Admits (g : Gap) (t : Token) : Prop := g = .closing → t = .mark .closeBracket

/-- **A text that has tokens in their order**, with what may stand in front of it and behind it. No
line ends behind a word that leads, and a comma that is no token has a closing bracket behind it. -/
inductive Arranged : Gap → List Token → List Char → Gap → Prop
  | done (g : Gap) : Arranged g [] [] g
  | blank {g g' : Gap} {tokens : List Token} {cs : List Char} :
    Arranged g tokens cs g' → Arranged g tokens (' ' :: cs) g'
  | lineBreak {g g' : Gap} {tokens : List Token} {cs : List Char} :
    g ≠ .held → Arranged g tokens cs g' → Arranged g tokens ('\n' :: cs) g'
  | token {g g' : Gap} {t : Token} {tokens : List Token} {cs : List Char} :
    g.Admits t → Arranged t.after tokens cs g' →
      Arranged g (t :: tokens) (t.text.toList ++ cs) g'
  | extraComma {g' : Gap} {tokens : List Token} {cs : List Char} :
    Arranged .closing tokens cs g' → Arranged .free tokens (',' :: cs) g'

/-! ## Putting arrangements together -/

section

variable {g m g' : Gap} {a b : List Token} {cs ds : List Char}

theorem Gap.admits_of_ne {t : Token} (h : g ≠ .closing) : g.Admits t := fun hg => absurd hg h

theorem Gap.admits_closeBracket (g : Gap) : g.Admits (.mark .closeBracket) := fun _ => rfl

theorem Arranged.append (h : Arranged g a cs m) (h' : Arranged m b ds g') :
    Arranged g (a ++ b) (cs ++ ds) g' := by
  induction h with
  | done => exact h'
  | blank _ ih => exact (ih h').blank
  | lineBreak hg _ ih => exact .lineBreak hg (ih h')
  | token ht _ ih =>
    rw [List.cons_append, List.append_assoc]
    exact .token ht (ih h')
  | extraComma _ ih => exact (ih h').extraComma

/-- Texts one after the other. -/
theorem Arranged.append_text {s t : String} (h : Arranged g a s.toList m)
    (h' : Arranged m b t.toList g') : Arranged g (a ++ b) (s ++ t).toList g' := by
  rw [String.toList_append]
  exact h.append h'

theorem Arranged.sole {t : Token} (h : g.Admits t) : Arranged g [t] t.text.toList t.after := by
  have hdone := Arranged.token h (.done t.after)
  rwa [List.append_nil] at hdone

theorem arranged_blanks (g : Gap) (n : Nat) : Arranged g [] (List.replicate n ' ') g := by
  induction n with
  | zero => exact .done g
  | succ n ih => exact ih.blank

/-- A text in which tokens are arranged, with any gap around it. -/
def HasTokens (tokens : List Token) (s : String) : Prop := Arranged .free tokens s.toList .free

/-- Parts with a mark between them. -/
theorem hasTokens_separated {mark : Mark} {sep : String} {parts : List (List Token)}
    {texts : List String} (hsep : HasTokens [.mark mark] sep)
    (h : List.Forall₂ HasTokens parts texts) :
    HasTokens (separated mark parts) (sep.intercalate texts) := by
  induction h with
  | nil => exact .done .free
  | cons hfirst hrest ih =>
    cases hrest with
    | nil =>
      unfold separated
      rw [List.intercalate_singleton, String.intercalate_singleton]
      exact hfirst
    | cons hnext hmore =>
      unfold separated at ih ⊢
      rw [List.intercalate_cons_cons, String.intercalate_cons_cons]
      exact (hfirst.append_text hsep).append_text ih

end

/-! ## Squeezing -/

/-- A text without blanks, line breaks and commas in front of a closing bracket; what is inside of a
string literal is kept. -/
def squeezeFrom : (isInside : Bool) → List Char → List Char
  | _, [] => []
  | true, '\\' :: c :: rest => '\\' :: c :: squeezeFrom true rest
  | true, c :: rest => c :: squeezeFrom (c != '"') rest
  | false, c :: rest =>
    let done := squeezeFrom (c == '"') rest
    if c = ' ' ∨ c = '\n' ∨ c = ',' ∧ done.head? = some ']' then done else c :: done

def squeeze (cs : List Char) : List Char := squeezeFrom false cs

section

variable {cs ds : List Char}

theorem squeeze_cons {c : Char} (hc : c ≠ '"') (cs : List Char) :
    squeeze (c :: cs) =
      if c = ' ' ∨ c = '\n' ∨ c = ',' ∧ (squeeze cs).head? = some ']' then squeeze cs
      else c :: squeeze cs := by
  unfold squeeze
  rw [squeezeFrom, beq_false_of_ne hc]

/-- Characters that open no literal leave what follows as it is squeezed. -/
theorem squeeze_append_congr {front : List Char} (hfront : '"' ∉ front)
    (h : squeeze cs = squeeze ds) : squeeze (front ++ cs) = squeeze (front ++ ds) := by
  induction front with
  | nil => exact h
  | cons c rest ih =>
    have hc : c ≠ '"' := fun he => hfront (he ▸ List.mem_cons_self)
    rw [List.cons_append, List.cons_append, squeeze_cons hc, squeeze_cons hc,
      ih fun hmem => hfront (List.mem_cons_of_mem _ hmem)]

/-! ### String literals -/

theorem squeezeFrom_plain {c : Char} (hquote : c ≠ '"') (hslash : c ≠ '\\') (cs : List Char) :
    squeezeFrom true (c :: cs) = c :: squeezeFrom true cs := by
  rw [squeezeFrom, bne_iff_ne.2 hquote]
  exact fun _ _ he _ => hslash he

theorem hexDigit_ne {n : Nat} (h : n < 16) :
    Text.hexDigit n ≠ '"' ∧ Text.hexDigit n ≠ '\\' := by
  have hall : ∀ m : Fin 16, Text.hexDigit m ≠ '"' ∧ Text.hexDigit m ≠ '\\' := by decide
  exact hall ⟨n, h⟩

/-- The written form of a character inside of a literal is kept. -/
theorem squeezeFrom_escape (c : Char) (cs : List Char) :
    squeezeFrom true (Text.escape c ++ cs) = Text.escape c ++ squeezeFrom true cs := by
  unfold Text.escape
  split_ifs with hquote hslash hback htab hline hfeed hreturn hcontrol
  case pos => rfl
  case pos => rfl
  case pos => rfl
  case pos => rfl
  case pos => rfl
  case pos => rfl
  case pos => rfl
  case pos =>
    obtain ⟨hhigh, hhigh'⟩ := hexDigit_ne (n := c.toNat / 16) (by omega)
    obtain ⟨hlow, hlow'⟩ := hexDigit_ne (n := c.toNat % 16) (by omega)
    unfold Text.hexByte
    simp only [List.cons_append, List.nil_append]
    rw [squeezeFrom, squeezeFrom_plain (by decide) (by decide),
      squeezeFrom_plain (by decide) (by decide), squeezeFrom_plain hhigh hhigh',
      squeezeFrom_plain hlow hlow']
  case neg => exact squeezeFrom_plain hquote hslash cs

theorem squeezeFrom_escapes (s cs : List Char) :
    squeezeFrom true (s.flatMap Text.escape ++ cs) =
      s.flatMap Text.escape ++ squeezeFrom true cs := by
  induction s with
  | nil => rfl
  | cons c rest ih =>
    rw [List.flatMap_cons, List.append_assoc, squeezeFrom_escape, ih, List.append_assoc]

/-- **A string literal is kept**, and what follows is squeezed by itself. -/
theorem squeeze_quote (s : String) (cs : List Char) :
    squeeze ((Text.quote s).toList ++ cs) = (Text.quote s).toList ++ squeeze cs := by
  have hopen : ∀ rest, squeeze ('"' :: rest) = '"' :: squeezeFrom true rest := fun _ => rfl
  have hclose : squeezeFrom true ('"' :: cs) = '"' :: squeeze cs := rfl
  rw [Text.toList_quote, List.cons_append, List.cons_append, List.append_assoc,
    List.singleton_append, hopen, squeezeFrom_escapes, hclose]
  simp

/-! ### Tokens -/

theorem no_quote_toString (n : Int) : '"' ∉ (toString n).toList := by
  have hdigits : '"' ∉ Nat.toDigits 10 n.natAbs := fun h => by
    have hdigit := Text.isDigit_toDigits h
    revert hdigit
    decide
  rw [Text.toList_toString_int]
  split
  · simpa using hdigits
  · exact hdigits

theorem Mark.no_quote (m : Mark) : '"' ∉ m.text.toList := by
  cases m with
  | operator op => cases op <;> decide
  | bool b => cases b <;> decide
  | _ => decide

/-- A token leaves what follows as it is squeezed. -/
theorem Token.squeeze_congr {t : Token} (ht : ∀ s, t = .name s → '"' ∉ s.toList)
    (h : squeeze cs = squeeze ds) :
    squeeze (t.text.toList ++ cs) = squeeze (t.text.toList ++ ds) := by
  cases t with
  | lead word => exact squeeze_append_congr (by cases word <;> decide) h
  | mark m => exact squeeze_append_congr m.no_quote h
  | name s => exact squeeze_append_congr (ht s rfl) h
  | literal s =>
    unfold Token.text
    rw [squeeze_quote, squeeze_quote, h]
  | bigInt digits =>
    unfold Token.text
    rw [String.toList_append, String.toList_append, List.append_assoc, List.append_assoc,
      List.append_assoc, List.append_assoc]
    refine squeeze_append_congr (by decide) ?_
    rw [squeeze_quote, squeeze_quote, squeeze_append_congr (by decide) h]
  | number n => exact squeeze_append_congr (no_quote_toString n) h

/-- The characters of tokens, with nothing between them. -/
def bareText (tokens : List Token) : List Char := tokens.flatMap fun t => t.text.toList

/-- What is squeezed does not show the arrangement; a text that waits for a closing bracket begins
with it. -/
theorem Arranged.squeeze_aux {g g' : Gap} {tokens : List Token}
    (h : Arranged g tokens cs g') (hfree : g' = .free)
    (hnames : ∀ s, Token.name s ∈ tokens → '"' ∉ s.toList) :
    squeeze cs = squeeze (bareText tokens) ∧
      (g = .closing → (squeeze cs).head? = some ']') := by
  -- An extra comma goes because what is left behind it begins with the bracket it waits for.
  induction h with
  | done g =>
    subst hfree
    exact ⟨rfl, nofun⟩
  | blank _ ih =>
    rw [squeeze_cons (by decide), if_pos (Or.inl rfl)]
    exact ih hfree hnames
  | lineBreak _ _ ih =>
    rw [squeeze_cons (by decide), if_pos (Or.inr (Or.inl rfl))]
    exact ih hfree hnames
  | @token g g' t tokens cs ht _ ih =>
    obtain ⟨hrest, -⟩ := ih hfree fun s hs => hnames s (List.mem_cons_of_mem _ hs)
    refine ⟨?_, fun hclosing => ?_⟩
    · unfold bareText at hrest ⊢
      rw [List.flatMap_cons]
      exact Token.squeeze_congr (fun s hs => hnames s (hs ▸ List.mem_cons_self)) hrest
    · rw [ht hclosing]
      have hbracket : squeeze (']' :: cs) = ']' :: squeeze cs := by
        rw [squeeze_cons (by decide), if_neg (by simp)]
      exact congrArg List.head? hbracket
  | extraComma _ ih =>
    obtain ⟨hrest, hhead⟩ := ih hfree hnames
    rw [squeeze_cons (by decide), if_pos (Or.inr (Or.inr ⟨rfl, hhead rfl⟩))]
    exact ⟨hrest, nofun⟩

/-- **Squeezing takes out the arrangement**: it gives what it gives of the bare tokens. -/
theorem Arranged.squeeze_eq {tokens : List Token} (h : Arranged .free tokens cs .free)
    (hnames : ∀ s, Token.name s ∈ tokens → '"' ∉ s.toList) :
    squeeze cs = squeeze (bareText tokens) := (h.squeeze_aux rfl hnames).1

end

end TypedBindings.TypeScript
