import TypedBindings.Proofs.TypeScript.Pieces

/-!
# Operands and precedence

The language groups operands by how tightly they are bound. Where a tree is grouped so, its pieces
say all there is to say.

* `Expr.level`, `Piece.level`: how tightly an expression is bound, and what a piece binds.
* `Expr.IsGrouped`: operator trees that are grouped as the language reads them.
* `Expr.IsGrouped.eq_of_flat`: such a tree is found again from its pieces.
-/

namespace TypedBindings.TypeScript

/-! ## Levels -/

def Operator.level : Operator → Nat
  | .assign => 1
  | .or => 2
  | .strictEq => 3
  | .greater => 4
  | .add => 5

/-- The level from which on something is the left operand of an operator. What is assigned to is
bound most tightly. -/
def Operator.leftLevel : Operator → Nat
  | .assign => 7
  | op => op.level

/-- The level from which on something is the right operand of an operator. Only assignments lean to
the right. -/
def Operator.rightLevel : Operator → Nat
  | .assign => 1
  | op => op.level + 1

/-- How tightly an expression is bound. Conditionals are as loose as assignments, a cast is like a
comparison, and `await` comes in front of all operators. -/
def Expr.level : Expr → Nat
  | .cond _ _ _ | .arrow _ _ | .arrowBlock _ _ => 1
  | .binary _ op _ => op.level
  | .cast _ _ => 4
  | .await _ => 6
  | _ => 7

/-- The level of the expression that a piece makes. -/
def Piece.level : Piece → Nat
  | .choice _ => 1
  | .operator op => op.level
  | .cast _ => 4
  | .await => 6
  | _ => 7

/-- **An operator tree that is grouped as the language reads it**: every operand is bound tightly
enough for its place. -/
inductive Expr.IsGrouped : Expr → Prop
  | ident (name : String) : IsGrouped (.ident name)
  | member {target : Expr} (name : String) : IsGrouped target → IsGrouped (.member target name)
  | index {target key : Expr} : IsGrouped target → IsGrouped key → IsGrouped (.index target key)
  | call {callee : Expr} {args : List Expr} :
    IsGrouped callee → (∀ a ∈ args, IsGrouped a) → IsGrouped (.call callee [] args)
  | await {value : Expr} : IsGrouped value → 6 ≤ value.level → IsGrouped (.await value)
  | cast {value : Expr} (type : String) :
    IsGrouped value → 4 ≤ value.level → IsGrouped (.cast value (.named type))
  | cond {test yes no : Expr} : IsGrouped test → IsGrouped yes → IsGrouped no → 2 ≤ test.level →
    IsGrouped (.cond test yes no)
  | binary {left right : Expr} {op : Operator} : IsGrouped left → IsGrouped right →
    op.leftLevel ≤ left.level → op.rightLevel ≤ right.level → IsGrouped (.binary left op right)

theorem Expr.IsGrouped.isOperatorTree {e : Expr} (h : e.IsGrouped) : e.IsOperatorTree := by
  induction h with
  | ident name => exact .ident name
  | member name _ ih => exact .member name ih
  | index _ _ ihtarget ihkey => exact .index ihtarget ihkey
  | call _ _ ihcallee ihargs => exact .call ihcallee ihargs
  | await _ _ ih => exact .await ih
  | cast type _ _ ih => exact .cast type ih
  | cond _ _ _ _ ihtest ihyes ihno => exact .cond ihtest ihyes ihno
  | binary _ _ _ _ ihleft ihright => exact .binary _ ihleft ihright

/-! ## The loosest piece -/

section

variable {op op' : Operator}

theorem Operator.level_ne_tight (op : Operator) : op.level ≠ 7 := by cases op <;> decide

theorem Operator.level_ne_await (op : Operator) : op.level ≠ 6 := by cases op <;> decide

theorem Operator.level_le_leftLevel (op : Operator) : op.level ≤ op.leftLevel := by
  cases op <;> decide

theorem Operator.level_le_rightLevel (op : Operator) : op.level ≤ op.rightLevel := by
  cases op <;> decide

theorem Operator.eq_of_level (h : op.level = op'.level) : op = op' := by
  revert h
  cases op <;> cases op' <;> decide

/-- Apart from assignments, operators lean to the left. -/
theorem Operator.level_lt_rightLevel (h : op ≠ .assign) : op.level < op.rightLevel := by
  cases op with
  | assign => exact absurd rfl h
  | _ => decide

end

section

variable {e e' : Expr}

theorem Expr.IsGrouped.level_of_not_loose (h : e.IsGrouped) (hloose : e.bindsLoosely = false) :
    e.level = 7 := by
  cases h with
  | ident | member | index | call => rfl
  | await | cast | cond | binary => cases hloose

theorem Piece.level_pos (p : Piece) : 1 ≤ p.level := by
  cases p with
  | operator op => cases op <;> decide
  | _ => exact Nat.le_add_left 1 _

/-- A target in parentheses is one tight piece, and one without has tight pieces only. -/
theorem Expr.IsGrouped.level_le_target (h : e.IsGrouped) (hpieces : ∀ p ∈ e.flat, e.level ≤ p.level) :
    ∀ p ∈ Piece.target e.bindsLoosely e.flat, 7 ≤ p.level := by
  intro p hp
  cases hloose : e.bindsLoosely with
  | true =>
    rw [hloose] at hp
    rw [List.mem_singleton.1 hp]
    exact Nat.le_refl 7
  | false =>
    rw [hloose] at hp
    have hlevel := h.level_of_not_loose hloose
    have hle := hpieces p hp
    omega

/-- No piece is looser than the expression. -/
theorem Expr.IsGrouped.level_le (h : e.IsGrouped) : ∀ p ∈ e.flat, e.level ≤ p.level := by
  induction h with
  | ident name => exact List.forall_mem_singleton.2 (Nat.le_refl 7)
  | member name htarget ih =>
    exact List.forall_mem_append.2
      ⟨htarget.level_le_target ih, List.forall_mem_singleton.2 (Nat.le_refl 7)⟩
  | index htarget _ ih _ =>
    exact List.forall_mem_append.2
      ⟨htarget.level_le_target ih, List.forall_mem_singleton.2 (Nat.le_refl 7)⟩
  | call hcallee _ ih _ =>
    exact List.forall_mem_append.2
      ⟨hcallee.level_le_target ih, List.forall_mem_singleton.2 (Nat.le_refl 7)⟩
  | await _ hlevel ih =>
    exact List.forall_mem_cons.2 ⟨Nat.le_refl 6, fun p hp => Nat.le_trans hlevel (ih p hp)⟩
  | cast type _ hlevel ih =>
    exact List.forall_mem_append.2
      ⟨fun p hp => Nat.le_trans hlevel (ih p hp), List.forall_mem_singleton.2 (Nat.le_refl 4)⟩
  | cond => exact fun p _ => p.level_pos
  | @binary left right op _ _ hleft hright ihleft ihright =>
    have hleft' : op.level ≤ left.level := Nat.le_trans op.level_le_leftLevel hleft
    have hright' : op.level ≤ right.level := Nat.le_trans op.level_le_rightLevel hright
    refine List.forall_mem_append.2 ⟨fun p hp => Nat.le_trans hleft' (ihleft p hp), ?_⟩
    exact List.forall_mem_cons.2
      ⟨Nat.le_refl op.level, fun p hp => Nat.le_trans hright' (ihright p hp)⟩

theorem Expr.IsGrouped.level_lt (h : e.IsGrouped) {n : Nat} (hn : n < e.level) :
    ∀ p ∈ e.flat, n < p.level := fun p hp => Nat.lt_of_lt_of_le hn (h.level_le p hp)

/-- Some piece is as loose as the expression. -/
theorem Expr.IsGrouped.exists_level (h : e.IsGrouped) : ∃ p ∈ e.flat, p.level = e.level := by
  cases h with
  | ident name => exact ⟨_, List.mem_singleton_self _, rfl⟩
  | member | index | call | cast =>
    exact ⟨_, List.mem_append_right _ (List.mem_singleton_self _), rfl⟩
  | await => exact ⟨_, List.mem_cons_self, rfl⟩
  | cond | binary => exact ⟨_, List.mem_append_right _ List.mem_cons_self, rfl⟩

theorem Expr.IsGrouped.level_eq (h : e.IsGrouped) (h' : e'.IsGrouped) (heq : e.flat = e'.flat) :
    e.level = e'.level := by
  obtain ⟨p, hp, hlevel⟩ := h.exists_level
  obtain ⟨p', hp', hlevel'⟩ := h'.exists_level
  have hle := h'.level_le p (heq ▸ hp)
  have hle' := h.level_le p' (heq ▸ hp')
  omega

/-! ## Trees from pieces -/

/-- Lists are taken apart at the first piece that is loose. -/
theorem eq_of_first {n : Nat} {l l' r r' : List Piece} {p p' : Piece} (hl : ∀ x ∈ l, n < x.level)
    (hl' : ∀ x ∈ l', n < x.level) (hp : p.level ≤ n) (hp' : p'.level ≤ n)
    (h : l ++ p :: r = l' ++ p' :: r') : l = l' ∧ p = p' ∧ r = r' := by
  have hend : ∀ {q : Piece} {s : List Piece}, q.level ≤ n →
      (q :: s).head?.all (fun x => !decide (n < x.level)) = true := by
    intro q s hq
    simpa using hq
  obtain ⟨hfront, hback⟩ := Text.run_append_inj (fun x hx => decide_eq_true (hl x hx))
    (fun x hx => decide_eq_true (hl' x hx)) (hend hp) (hend hp') h
  obtain ⟨hpiece, hrest⟩ := List.cons.inj hback
  exact ⟨hfront, hpiece, hrest⟩

/-- Lists are taken apart at the last piece that is loose. -/
theorem eq_of_last {n : Nat} {l l' r r' : List Piece} {p p' : Piece} (hr : ∀ x ∈ r, n < x.level)
    (hr' : ∀ x ∈ r', n < x.level) (hp : p.level ≤ n) (hp' : p'.level ≤ n)
    (h : l ++ p :: r = l' ++ p' :: r') : l = l' ∧ p = p' ∧ r = r' := by
  have hreverse := congrArg List.reverse h
  simp only [List.reverse_append, List.reverse_cons, List.append_assoc, List.singleton_append]
    at hreverse
  obtain ⟨hback, hpiece, hfront⟩ := eq_of_first
    (fun x hx => hr x (List.mem_reverse.1 hx)) (fun x hx => hr' x (List.mem_reverse.1 hx)) hp hp'
    hreverse
  exact ⟨List.reverse_inj.1 hfront, hpiece, List.reverse_inj.1 hback⟩

/-- A target without parentheses is no group. -/
theorem Expr.IsGrouped.flat_ne_group (h : e.IsGrouped) (hloose : e.bindsLoosely = false)
    (inner : List Piece) : e.flat ≠ [.group inner] := by
  intro heq
  have hlast := congrArg List.getLast? heq
  cases h with
  | ident name => cases heq
  | member | index | call => simp [Expr.flat] at hlast
  | await | cast | cond | binary => cases hloose

theorem Expr.IsGrouped.eq_of_target (h : e.IsGrouped) (h' : e'.IsGrouped)
    (heq : Piece.target e.bindsLoosely e.flat = Piece.target e'.bindsLoosely e'.flat) :
    e.flat = e'.flat := by
  cases hloose : e.bindsLoosely with
  | true =>
    cases hloose' : e'.bindsLoosely with
    | true =>
      rw [hloose, hloose'] at heq
      simpa [Piece.target] using heq
    | false =>
      rw [hloose, hloose'] at heq
      exact absurd heq.symm (h'.flat_ne_group hloose' _)
  | false =>
    cases hloose' : e'.bindsLoosely with
    | true =>
      rw [hloose, hloose'] at heq
      exact absurd heq (h.flat_ne_group hloose _)
    | false =>
      rw [hloose, hloose'] at heq
      exact heq

theorem eq_of_flats {args args' : List Expr}
    (hargs : ∀ a ∈ args, ∀ {a' : Expr}, a'.IsGrouped → a.flat = a'.flat → a = a')
    (hargs' : ∀ a' ∈ args', a'.IsGrouped) (h : Expr.flats args = Expr.flats args') :
    args = args' := by
  rw [Expr.flats_eq_map, Expr.flats_eq_map] at h
  induction args generalizing args' with
  | nil => exact (List.map_eq_nil_iff.1 h.symm).symm
  | cons a rest ih =>
    cases args' with
    | nil => cases h
    | cons a' rest' =>
      obtain ⟨hfirst, hrest⟩ := List.cons.inj h
      rw [hargs a List.mem_cons_self (hargs' a' List.mem_cons_self) hfirst,
        ih (fun b hb => hargs b (List.mem_cons_of_mem _ hb))
          (fun b hb => hargs' b (List.mem_cons_of_mem _ hb)) hrest]

section

variable {op : Operator} {left right left' right' test : Expr}

/-- The operands of one operator are found again: those of an assignment at the first one, those of
the others at the last one. -/
theorem eq_of_operands (hleft : left.IsGrouped) (hright : right.IsGrouped)
    (hleft' : left'.IsGrouped) (hright' : right'.IsGrouped)
    (hl : op.leftLevel ≤ left.level) (hr : op.rightLevel ≤ right.level)
    (hl' : op.leftLevel ≤ left'.level) (hr' : op.rightLevel ≤ right'.level)
    (h : left.flat ++ .operator op :: right.flat = left'.flat ++ .operator op :: right'.flat) :
    left.flat = left'.flat ∧ right.flat = right'.flat := by
  have hpiece : (Piece.operator op).level ≤ op.level := Nat.le_refl op.level
  by_cases hop : op = .assign
  · have hlt : op.level < op.leftLevel := by rw [hop]; decide
    obtain ⟨hfront, -, hback⟩ := eq_of_first (hleft.level_lt (Nat.lt_of_lt_of_le hlt hl))
      (hleft'.level_lt (Nat.lt_of_lt_of_le hlt hl')) hpiece hpiece h
    exact ⟨hfront, hback⟩
  · have hlt := Operator.level_lt_rightLevel hop
    obtain ⟨hfront, -, hback⟩ := eq_of_last (hright.level_lt (Nat.lt_of_lt_of_le hlt hr))
      (hright'.level_lt (Nat.lt_of_lt_of_le hlt hr')) hpiece hpiece h
    exact ⟨hfront, hback⟩

/-- A cast is as loose as a comparison, but comes last. -/
theorem cast_ne_binary (hright : right.IsGrouped) (hr : op.rightLevel ≤ right.level)
    (hlevel : op.level = 4) (pieces : List Piece) (type : Ty) :
    pieces ++ [.cast type] ≠ left.flat ++ .operator op :: right.flat := by
  intro h
  have hop : op ≠ .assign := by
    rintro rfl
    cases hlevel
  have hlt := Nat.lt_of_lt_of_le (Operator.level_lt_rightLevel hop) hr
  have hcast : (Piece.cast type).level ≤ op.level := Nat.le_of_eq hlevel.symm
  have hoperator : (Piece.operator op).level ≤ op.level := Nat.le_refl op.level
  obtain ⟨-, hpiece, -⟩ := eq_of_last (fun _ hx => absurd hx List.not_mem_nil)
    (hright.level_lt hlt) hcast hoperator h
  cases hpiece

/-- A conditional is as loose as an assignment, but the first of their marks are different. -/
theorem cond_ne_binary (htest : test.IsGrouped) (ht : 2 ≤ test.level) (hleft : left.IsGrouped)
    (hl : op.leftLevel ≤ left.level) (hlevel : op.level = 1) (yes rest : List Piece) :
    test.flat ++ .choice yes :: rest ≠ left.flat ++ .operator op :: right.flat := by
  intro h
  have hop : op = .assign := Operator.eq_of_level hlevel
  subst hop
  have hlt : 1 < left.level := Nat.lt_of_lt_of_le (by decide) hl
  have hchoice : (Piece.choice yes).level ≤ 1 := Nat.le_refl 1
  have hassign : (Piece.operator .assign).level ≤ 1 := Nat.le_refl 1
  obtain ⟨-, hpiece, -⟩ :=
    eq_of_first (htest.level_lt ht) (hleft.level_lt hlt) hchoice hassign h
  cases hpiece

end

/-- **A tree that is grouped as the language reads it is found again from its pieces.** -/
theorem Expr.IsGrouped.eq_of_flat (h : e.IsGrouped) (h' : e'.IsGrouped) (heq : e.flat = e'.flat) :
    e = e' := by
  -- The loosest piece gives the level, and so tells which forms the other tree can have; of tight
  -- forms, the last piece tells it.
  induction h generalizing e' with
  | ident name =>
    have hlevel := (Expr.IsGrouped.ident name).level_eq h' heq
    cases h' with
    | ident name' =>
      simp only [Expr.flat, List.cons.injEq, Piece.name.injEq, and_true] at heq
      rw [heq]
    | member | index | call => simpa [Expr.flat] using congrArg List.getLast? heq
    | await | cast | cond => cases hlevel
    | @binary _ _ op => exact absurd hlevel.symm op.level_ne_tight
  | member name ht ih =>
    have hlevel := (Expr.IsGrouped.member name ht).level_eq h' heq
    cases h' with
    | member name' ht' =>
      obtain ⟨htarget, hname⟩ := List.append_inj' heq rfl
      simp only [List.cons.injEq, Piece.member.injEq, and_true] at hname
      rw [ih ht' (ht.eq_of_target ht' htarget), hname]
    | ident | index | call => simpa [Expr.flat] using congrArg List.getLast? heq
    | await | cast | cond => cases hlevel
    | @binary _ _ op => exact absurd hlevel.symm op.level_ne_tight
  | index ht hk iht ihk =>
    have hlevel := (Expr.IsGrouped.index ht hk).level_eq h' heq
    cases h' with
    | index ht' hk' =>
      obtain ⟨htarget, hkey⟩ := List.append_inj' heq rfl
      simp only [List.cons.injEq, Piece.index.injEq, and_true] at hkey
      rw [iht ht' (ht.eq_of_target ht' htarget), ihk hk' hkey]
    | ident | member | call => simpa [Expr.flat] using congrArg List.getLast? heq
    | await | cast | cond => cases hlevel
    | @binary _ _ op => exact absurd hlevel.symm op.level_ne_tight
  | call hc ha ihc iha =>
    have hlevel := (Expr.IsGrouped.call hc ha).level_eq h' heq
    cases h' with
    | call hc' ha' =>
      obtain ⟨htarget, hargs⟩ := List.append_inj' heq rfl
      simp only [List.cons.injEq, Piece.call.injEq, true_and, and_true] at hargs
      rw [ihc hc' (hc.eq_of_target hc' htarget), eq_of_flats iha ha' hargs]
    | ident | member | index => simpa [Expr.flat] using congrArg List.getLast? heq
    | await | cast | cond => cases hlevel
    | @binary _ _ op => exact absurd hlevel.symm op.level_ne_tight
  | await hv hvl ih =>
    have hlevel := (Expr.IsGrouped.await hv hvl).level_eq h' heq
    cases h' with
    | await hv' => rw [ih hv' (List.cons.inj heq).2]
    | ident | member | index | call | cast | cond => cases hlevel
    | @binary _ _ op => exact absurd hlevel.symm op.level_ne_await
  | cast type hv hvl ih =>
    have hlevel := (Expr.IsGrouped.cast type hv hvl).level_eq h' heq
    cases h' with
    | cast type' hv' =>
      obtain ⟨hvalue, htype⟩ := List.append_inj' heq rfl
      simp only [List.cons.injEq, Piece.cast.injEq, Ty.named.injEq, and_true] at htype
      rw [ih hv' hvalue, htype]
    | binary _ hr' _ hrl' => exact absurd heq (cast_ne_binary hr' hrl' hlevel.symm _ _)
    | ident | member | index | call | await | cond => cases hlevel
  | cond ht hy hn htl iht ihy ihn =>
    have hlevel := (Expr.IsGrouped.cond ht hy hn htl).level_eq h' heq
    cases h' with
    | cond ht' hy' hn' htl' =>
      have hchoice : ∀ {yes : List Piece}, (Piece.choice yes).level ≤ 1 := Nat.le_refl 1
      obtain ⟨htest, hyes, hno⟩ :=
        eq_of_first (ht.level_lt htl) (ht'.level_lt htl') hchoice hchoice heq
      rw [iht ht' htest, ihy hy' (Piece.choice.inj hyes), ihn hn' hno]
    | binary hl' _ hll' _ => exact absurd heq (cond_ne_binary ht htl hl' hll' hlevel.symm _ _)
    | ident | member | index | call | await | cast => cases hlevel
  | @binary left right op hl hr hll hrl ihl ihr =>
    have hlevel := (Expr.IsGrouped.binary hl hr hll hrl).level_eq h' heq
    cases h' with
    | binary hl' hr' hll' hrl' =>
      have hop := Operator.eq_of_level hlevel
      subst hop
      obtain ⟨hleft, hright⟩ := eq_of_operands hl hr hl' hr' hll hrl hll' hrl' heq
      rw [ihl hl' hleft, ihr hr' hright]
    | cast => exact absurd heq.symm (cast_ne_binary hr hrl hlevel _ _)
    | cond ht' _ _ htl' => exact absurd heq.symm (cond_ne_binary ht' htl' hl hll hlevel _ _)
    | ident | member | index | call => exact absurd hlevel op.level_ne_tight
    | await => exact absurd hlevel op.level_ne_await

end

end TypedBindings.TypeScript
