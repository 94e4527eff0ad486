import TypedBindings.Proofs.Text.Parts
import TypedBindings.Proofs.TypeScript.Token

/-!
# Pieces of expressions

A text groups the targets of suffixes and nothing else: it shows an operator, a conditional, a cast
or an `await` among its operands, but not where those begin and end. What it shows is a list of
pieces.

* `Piece`, `Expr.flat`: the pieces of an expression, in which its operands stand side by side.
* `tokens_flat`: the tokens of an expression are those of its pieces.
* `IsOperatorTree`: expressions of names, operators, conditionals, casts, `await` and suffixes.
* `Placed.eq_of_tokens`: the pieces of such an expression are found again from its tokens.
-/

namespace TypedBindings.TypeScript

/-! ## Pieces -/

/-- A piece of an expression whose operands are not grouped. -/
inductive Piece where
  | name (s : String)
  /-- The target of a suffix, in parentheses. -/
  | group (inner : List Piece)
  | member (name : String)
  | index (key : List Piece)
  | call (typeArgs : List Ty) (args : List (List Piece))
  | await
  | cast (type : Ty)
  | operator (op : Operator)
  /-- The first choice of a conditional, with the marks around it. -/
  | choice (yes : List Piece)
  /-- An expression of another form, as a whole. -/
  | whole (e : Expr)

namespace Piece

/-- The pieces of a target, in parentheses if wanted. -/
def target (wanted : Bool) (pieces : List Piece) : List Piece :=
  if wanted then [.group pieces] else pieces

mutual

/-- The tokens of a piece. -/
def tokens : Piece → List Token
  | .name s => [.name s]
  | .group inner => enclosed .openParen .closeParen (tokensOf inner)
  | .member n => [.mark .dot, .name n]
  | .index key => enclosed .openBracket .closeBracket (tokensOf key)
  | .call typeArgs args => angled (Ty.tokenLists typeArgs) ++ argsTokens (tokenLists args)
  | .await => [.lead .await]
  | .cast type => .mark .asWord :: type.tokens
  | .operator op => [.mark (.operator op)]
  | .choice yes => .mark .question :: tokensOf yes ++ [.mark .colon]
  | .whole e => e.tokens

def tokensOf : List Piece → List Token
  | [] => []
  | p :: rest => p.tokens ++ tokensOf rest

def tokenLists : List (List Piece) → List (List Token)
  | [] => []
  | pieces :: rest => tokensOf pieces :: tokenLists rest

end

/-- The tokens of pieces that stand one behind the other. -/
theorem tokensOf_append (ps qs : List Piece) : tokensOf (ps ++ qs) = tokensOf ps ++ tokensOf qs := by
  induction ps with
  | nil => rfl
  | cons p rest ih => rw [List.cons_append, tokensOf, tokensOf, ih, List.append_assoc]

theorem tokenLists_eq_map (lists : List (List Piece)) : tokenLists lists = lists.map tokensOf := by
  induction lists with
  | nil => rfl
  | cons pieces rest ih => rw [tokenLists, ih, List.map_cons]

/-- A target in parentheses where the printer puts them. -/
theorem tokensOf_target (wanted : Bool) (pieces : List Piece) :
    tokensOf (target wanted pieces) = grouped wanted (tokensOf pieces) := by
  cases wanted with
  | true =>
    unfold target grouped
    simp [tokensOf, tokens]
  | false => rfl

end Piece

mutual

/-- The pieces of an expression. -/
def Expr.flat : Expr → List Piece
  | .ident path => [.name path]
  | .call callee typeArgs args =>
    Piece.target callee.bindsLoosely callee.flat ++ [.call typeArgs (Expr.flats args)]
  | .member target name => Piece.target target.bindsLoosely target.flat ++ [.member name]
  | .index target key => Piece.target target.bindsLoosely target.flat ++ [.index key.flat]
  | .await value => .await :: value.flat
  | .cast value type => value.flat ++ [.cast type]
  | .cond test yes no => test.flat ++ .choice yes.flat :: no.flat
  | .binary left op right => left.flat ++ .operator op :: right.flat
  | e => [.whole e]

def Expr.flats : List Expr → List (List Piece)
  | [] => []
  | e :: rest => e.flat :: Expr.flats rest

end

/-- Each argument has pieces of its own. -/
theorem Expr.flats_eq_map (exprs : List Expr) : Expr.flats exprs = exprs.map Expr.flat := by
  induction exprs with
  | nil => rfl
  | cons e rest ih => rw [Expr.flats, ih, List.map_cons]

mutual

/-- **The tokens of an expression are those of its pieces**, so expressions with the same pieces
differ in their layout at most. -/
theorem Expr.tokens_flat (e : Expr) : Piece.tokensOf e.flat = e.tokens := by
  match e with
  | .ident path => rfl
  | .call callee typeArgs args =>
    rw [Expr.flat, Piece.tokensOf_append, Piece.tokensOf_target, callee.tokens_flat, Expr.tokens]
    simp [Piece.tokensOf, Piece.tokens, Expr.tokenLists_flats args]
  | .member target name =>
    rw [Expr.flat, Piece.tokensOf_append, Piece.tokensOf_target, target.tokens_flat, Expr.tokens]
    simp [Piece.tokensOf, Piece.tokens]
  | .index target key =>
    rw [Expr.flat, Piece.tokensOf_append, Piece.tokensOf_target, target.tokens_flat, Expr.tokens]
    simp [Piece.tokensOf, Piece.tokens, key.tokens_flat]
  | .await value =>
    rw [Expr.flat, Expr.tokens, ← value.tokens_flat]
    rfl
  | .cast value type =>
    rw [Expr.flat, Piece.tokensOf_append, value.tokens_flat, Expr.tokens]
    simp [Piece.tokensOf, Piece.tokens]
  | .cond test yes no =>
    rw [Expr.flat, Piece.tokensOf_append, test.tokens_flat, Expr.tokens]
    simp [Piece.tokensOf, Piece.tokens, yes.tokens_flat, no.tokens_flat]
  | .binary left op right =>
    rw [Expr.flat, Piece.tokensOf_append, left.tokens_flat, Expr.tokens]
    simp [Piece.tokensOf, Piece.tokens, right.tokens_flat]
  | .str _ => exact List.append_nil _
  | .bigInt _ => exact List.append_nil _
  | .bool _ => exact List.append_nil _
  | .num _ => exact List.append_nil _
  | .undefined => exact List.append_nil _
  | .array _ => exact List.append_nil _
  | .object _ => exact List.append_nil _
  | .construct _ _ _ => exact List.append_nil _
  | .arrow _ _ => exact List.append_nil _
  | .arrowBlock _ _ => exact List.append_nil _
  | .paren _ => exact List.append_nil _

/-- The pieces of arguments have the tokens of the arguments. -/
theorem Expr.tokenLists_flats (exprs : List Expr) :
    Piece.tokenLists (Expr.flats exprs) = Expr.tokenLists exprs := by
  match exprs with
  | [] => rfl
  | e :: rest =>
    rw [Expr.flats, Piece.tokenLists, e.tokens_flat, Expr.tokenLists_flats rest, Expr.tokenLists]

end

/-! ## Operator trees -/

/-- **An expression of names, operators, conditionals, casts to named types, `await`, members,
indices and calls** without type arguments. No parentheses are written into it. -/
inductive Expr.IsOperatorTree : Expr → Prop
  | ident (name : String) : IsOperatorTree (.ident name)
  | member {target : Expr} (name : String) :
    IsOperatorTree target → IsOperatorTree (.member target name)
  | index {target key : Expr} :
    IsOperatorTree target → IsOperatorTree key → IsOperatorTree (.index target key)
  | call {callee : Expr} {args : List Expr} :
    IsOperatorTree callee → (∀ a ∈ args, IsOperatorTree a) → IsOperatorTree (.call callee [] args)
  | await {value : Expr} : IsOperatorTree value → IsOperatorTree (.await value)
  | cast {value : Expr} (type : String) :
    IsOperatorTree value → IsOperatorTree (.cast value (.named type))
  | cond {test yes no : Expr} : IsOperatorTree test → IsOperatorTree yes → IsOperatorTree no →
    IsOperatorTree (.cond test yes no)
  | binary {left right : Expr} (op : Operator) :
    IsOperatorTree left → IsOperatorTree right → IsOperatorTree (.binary left op right)

/-- **Pieces in their places**: where an operand is missing, one begins; where one is given, it
goes on or an operator follows. Parentheses are a group in the first place and a call in the
second. -/
inductive Placed : (isGiven : Bool) → List Piece → Prop
  | name (s : String) {ps : List Piece} : Placed true ps → Placed false (.name s :: ps)
  | group {inner ps : List Piece} :
    Placed false inner → Placed true ps → Placed false (.group inner :: ps)
  | await {ps : List Piece} : Placed false ps → Placed false (.await :: ps)
  | done : Placed true []
  | member (n : String) {ps : List Piece} : Placed true ps → Placed true (.member n :: ps)
  | index {key ps : List Piece} : Placed false key → Placed true ps → Placed true (.index key :: ps)
  | call {args : List (List Piece)} {ps : List Piece} :
    (∀ a ∈ args, Placed false a) → Placed true ps → Placed true (.call [] args :: ps)
  | cast (n : String) {ps : List Piece} : Placed true ps → Placed true (.cast (.named n) :: ps)
  | operator (op : Operator) {ps : List Piece} : Placed false ps → Placed true (.operator op :: ps)
  | choice {yes ps : List Piece} :
    Placed false yes → Placed false ps → Placed true (.choice yes :: ps)

/-- A target is an operand, in parentheses or not. -/
theorem placed_target {wanted : Bool} {pieces ps : List Piece}
    (h : ∀ {rest}, Placed true rest → Placed false (pieces ++ rest)) (hps : Placed true ps) :
    Placed false (Piece.target wanted pieces ++ ps) := by
  cases wanted with
  | true =>
    have hinner : Placed false (pieces ++ []) := h .done
    rw [List.append_nil] at hinner
    exact .group hinner hps
  | false => exact h hps

/-- **The pieces of an operator tree are in their places**, also in front of more pieces. -/
theorem Expr.IsOperatorTree.placed_append {e : Expr} (he : e.IsOperatorTree) {ps : List Piece}
    (hps : Placed true ps) : Placed false (e.flat ++ ps) := by
  induction he generalizing ps with
  | ident name => exact .name name hps
  | member name _ ih =>
    rw [Expr.flat, List.append_assoc]
    exact placed_target ih (.member name hps)
  | index _ _ ihtarget ihkey =>
    -- The bracket closes the key, so nothing has to follow its pieces.
    have hkey := ihkey .done
    rw [List.append_nil] at hkey
    rw [Expr.flat, List.append_assoc]
    exact placed_target ihtarget (.index hkey hps)
  | @call callee args _ _ ihcallee ihargs =>
    have hargs : ∀ a ∈ Expr.flats args, Placed false a := by
      rw [Expr.flats_eq_map]
      intro a ha
      obtain ⟨arg, harg, rfl⟩ := List.mem_map.1 ha
      have hplaced := ihargs arg harg .done
      rwa [List.append_nil] at hplaced
    rw [Expr.flat, List.append_assoc]
    exact placed_target ihcallee (.call hargs hps)
  | await _ ih => exact .await (ih hps)
  | cast type _ ih =>
    rw [Expr.flat, List.append_assoc]
    exact ih (.cast type hps)
  | cond _ _ _ ihtest ihyes ihno =>
    have hyes := ihyes .done
    rw [List.append_nil] at hyes
    rw [Expr.flat, List.append_assoc]
    exact ihtest (.choice hyes (ihno hps))
  | binary op _ _ ihleft ihright =>
    rw [Expr.flat, List.append_assoc]
    exact ihleft (.operator op (ihright hps))

/-- The pieces of an operator tree stand where a reader expects them. -/
theorem Expr.IsOperatorTree.placed {e : Expr} (he : e.IsOperatorTree) : Placed false e.flat := by
  have hplaced := he.placed_append .done
  rwa [List.append_nil] at hplaced

/-! ## Pieces from tokens -/

section

variable {ps : List Piece}

@[simp]
theorem tokensOf_name (s : String) :
    Piece.tokensOf (.name s :: ps) = .name s :: Piece.tokensOf ps := rfl

@[simp]
theorem tokensOf_group (inner : List Piece) :
    Piece.tokensOf (.group inner :: ps) =
      .mark .openParen :: (Piece.tokensOf inner ++ .mark .closeParen :: Piece.tokensOf ps) := by
  simp [Piece.tokensOf, Piece.tokens, enclosed]

@[simp]
theorem tokensOf_member (n : String) :
    Piece.tokensOf (.member n :: ps) = .mark .dot :: .name n :: Piece.tokensOf ps := rfl

@[simp]
theorem tokensOf_index (key : List Piece) :
    Piece.tokensOf (.index key :: ps) =
      .mark .openBracket :: (Piece.tokensOf key ++ .mark .closeBracket :: Piece.tokensOf ps) := by
  simp [Piece.tokensOf, Piece.tokens, enclosed]

/-- A call without type arguments. -/
@[simp]
theorem tokensOf_call (args : List (List Piece)) :
    Piece.tokensOf (.call [] args :: ps) =
      .mark .openParen :: ([Token.mark .comma].intercalate (args.map Piece.tokensOf) ++
        .mark .closeParen :: Piece.tokensOf ps) := by
  simp [Piece.tokensOf, Piece.tokens, angled, argsTokens, enclosed, listed, separated,
    Ty.tokenLists, Piece.tokenLists_eq_map]

@[simp]
theorem tokensOf_await :
    Piece.tokensOf (.await :: ps) = .lead .await :: Piece.tokensOf ps := rfl

@[simp]
theorem tokensOf_cast (n : String) :
    Piece.tokensOf (.cast (.named n) :: ps) = .mark .asWord :: .name n :: Piece.tokensOf ps := rfl

@[simp]
theorem tokensOf_operator (op : Operator) :
    Piece.tokensOf (.operator op :: ps) = .mark (.operator op) :: Piece.tokensOf ps := rfl

@[simp]
theorem tokensOf_choice (yes : List Piece) :
    Piece.tokensOf (.choice yes :: ps) =
      .mark .question :: (Piece.tokensOf yes ++ .mark .colon :: Piece.tokensOf ps) := by
  simp [Piece.tokensOf, Piece.tokens]

end

/-- Whether a token ends the pieces in front of it. -/
def Token.isEnd : Token → Bool
  | .mark .closeParen | .mark .closeBracket | .mark .comma | .mark .colon => true
  | _ => false

/-- Whether nothing follows, or something that ends the pieces in front of it. -/
def endsPieces (r : List Token) : Bool := r.head?.all Token.isEnd

/-- The rest of a text that no piece continues. -/
def Ends (r : List Token) : Prop := endsPieces r = true

section

variable {isGiven : Bool} {ps ps' : List Piece} {t : Token} {r r' : List Token}

theorem ends_nil : Ends [] := rfl

theorem ends_cons (ht : t.isEnd = true) : Ends (t :: r) := ht

/-- A rest that ends an expression does not start with a token that goes on with it. -/
theorem not_ends_of_eq (h : t :: r = r') (ht : t.isEnd = false) : ¬ Ends r' := by
  subst h
  unfold Ends endsPieces
  simp [ht]

/-- No piece begins with a token that ends one. -/
theorem Placed.nil_of_ends (h : Placed isGiven ps) (hr : Ends (Piece.tokensOf ps ++ r)) :
    isGiven = true ∧ ps = [] := by
  cases h with
  | done => exact ⟨rfl, rfl⟩
  | _ =>
    simp only [tokensOf_name, tokensOf_group, tokensOf_await, tokensOf_member, tokensOf_index,
      tokensOf_call, tokensOf_cast, tokensOf_operator, tokensOf_choice, List.cons_append] at hr
    exact absurd hr (not_ends_of_eq rfl rfl)

/-- **Pieces in their places are found again from their tokens** and what ends them. -/
theorem Placed.eq_of_tokens (h : Placed isGiven ps) (h' : Placed isGiven ps') (hr : Ends r)
    (hr' : Ends r') (heq : Piece.tokensOf ps ++ r = Piece.tokensOf ps' ++ r') :
    ps = ps' ∧ r = r' := by
  -- Where an operand is missing or given, the next token tells which piece comes; what a piece
  -- has inside of it ends with the mark behind it.
  induction h generalizing ps' r r' with
  | name s _ ih =>
    cases h' with
    | name s' hps' =>
      simp only [tokensOf_name, List.cons_append, List.cons.injEq, Token.name.injEq] at heq
      obtain ⟨rfl, hrest⟩ := heq
      obtain ⟨rfl, rfl⟩ := ih hps' hr hr' hrest
      exact ⟨rfl, rfl⟩
    | _ => simp at heq
  | group _ _ ihinner ih =>
    cases h' with
    | group hinner' hps' =>
      simp only [tokensOf_group, List.cons_append, List.append_assoc, List.cons.injEq,
        true_and] at heq
      obtain ⟨rfl, hrest⟩ := ihinner hinner' (ends_cons (by rfl)) (ends_cons (by rfl)) heq
      obtain ⟨rfl, rfl⟩ := ih hps' hr hr' (List.cons.inj hrest).2
      exact ⟨rfl, rfl⟩
    | _ => simp at heq
  | await _ ih =>
    cases h' with
    | await hps' =>
      simp only [tokensOf_await, List.cons_append, List.cons.injEq, true_and] at heq
      obtain ⟨rfl, rfl⟩ := ih hps' hr hr' heq
      exact ⟨rfl, rfl⟩
    | _ => simp at heq
  | done =>
    have hends : Ends (Piece.tokensOf ps' ++ r') := heq ▸ hr
    obtain ⟨-, rfl⟩ := h'.nil_of_ends hends
    exact ⟨rfl, heq⟩
  | member n _ ih =>
    cases h' with
    | member n' hps' =>
      simp only [tokensOf_member, List.cons_append, List.cons.injEq, Token.name.injEq,
        true_and] at heq
      obtain ⟨rfl, hrest⟩ := heq
      obtain ⟨rfl, rfl⟩ := ih hps' hr hr' hrest
      exact ⟨rfl, rfl⟩
    | done => exact absurd hr' (not_ends_of_eq heq (by rfl))
    | _ => simp at heq
  | index _ _ ihkey ih =>
    cases h' with
    | index hkey' hps' =>
      simp only [tokensOf_index, List.cons_append, List.append_assoc, List.cons.injEq,
        true_and] at heq
      obtain ⟨rfl, hrest⟩ := ihkey hkey' (ends_cons (by rfl)) (ends_cons (by rfl)) heq
      obtain ⟨rfl, rfl⟩ := ih hps' hr hr' (List.cons.inj hrest).2
      exact ⟨rfl, rfl⟩
    | done => exact absurd hr' (not_ends_of_eq heq (by rfl))
    | _ => simp at heq
  | call hargs _ ihargs ih =>
    cases h' with
    | call hargs' hps' =>
      simp only [tokensOf_call, List.cons_append, List.append_assoc, List.cons.injEq,
        true_and] at heq
      have hclose : ∀ {s : List Token}, Ends (.mark .closeParen :: s) := ends_cons rfl
      have hnext : ∀ s, Ends ([Token.mark .comma] ++ s) := fun _ => ends_cons rfl
      have hcomma : ∀ {s : List Token}, ¬ [Token.mark .comma] <+: .mark .closeParen :: s := by simp
      -- no argument begins like the end of the list
      have hbegin : ∀ {x : List Piece} {s s' : List Token}, Placed false x →
          Piece.tokensOf x ++ s ≠ .mark .closeParen :: s' := by
        intro x s s' hx heq
        have hfalse := (hx.nil_of_ends (heq ▸ hclose)).1
        cases hfalse
      obtain ⟨rfl, hrest⟩ := Text.intercalate_append_inj hclose hclose hnext
        hcomma hcomma (fun x hx _ => hbegin (hargs x hx)) (fun x hx _ => hbegin (hargs' x hx))
        (fun x hx x' hx' _ _ hs hs' => ihargs x hx (hargs' x' hx') hs hs') heq
      obtain ⟨rfl, rfl⟩ := ih hps' hr hr' (List.cons.inj hrest).2
      exact ⟨rfl, rfl⟩
    | done => exact absurd hr' (not_ends_of_eq heq (by rfl))
    | _ => simp at heq
  | cast n _ ih =>
    cases h' with
    | cast n' hps' =>
      simp only [tokensOf_cast, List.cons_append, List.cons.injEq, Token.name.injEq,
        true_and] at heq
      obtain ⟨rfl, hrest⟩ := heq
      obtain ⟨rfl, rfl⟩ := ih hps' hr hr' hrest
      exact ⟨rfl, rfl⟩
    | done => exact absurd hr' (not_ends_of_eq heq (by rfl))
    | _ => simp at heq
  | operator op _ ih =>
    cases h' with
    | operator op' hps' =>
      simp only [tokensOf_operator, List.cons_append, List.cons.injEq, Token.mark.injEq,
        Mark.operator.injEq] at heq
      obtain ⟨rfl, hrest⟩ := heq
      obtain ⟨rfl, rfl⟩ := ih hps' hr hr' hrest
      exact ⟨rfl, rfl⟩
    | done => exact absurd hr' (not_ends_of_eq heq (by rfl))
    | _ => simp at heq
  | choice _ _ ihyes ih =>
    cases h' with
    | choice hyes' hps' =>
      simp only [tokensOf_choice, List.cons_append, List.append_assoc, List.cons.injEq,
        true_and] at heq
      obtain ⟨rfl, hrest⟩ := ihyes hyes' (ends_cons (by rfl)) (ends_cons (by rfl)) heq
      obtain ⟨rfl, rfl⟩ := ih hps' hr hr' (List.cons.inj hrest).2
      exact ⟨rfl, rfl⟩
    | done => exact absurd hr' (not_ends_of_eq heq (by rfl))
    | _ => simp at heq

end

/-- **An operator tree's pieces are found again from its tokens.** -/
theorem Expr.IsOperatorTree.flat_eq_of_tokens {e e' : Expr} (he : e.IsOperatorTree)
    (he' : e'.IsOperatorTree) (h : e.tokens = e'.tokens) : e.flat = e'.flat := by
  have htokens : Piece.tokensOf e.flat ++ [] = Piece.tokensOf e'.flat ++ [] := by
    rw [e.tokens_flat, e'.tokens_flat, h]
  exact (he.placed.eq_of_tokens he'.placed ends_nil ends_nil htokens).1

end TypedBindings.TypeScript
