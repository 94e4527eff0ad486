import TypedBindings.Binding.Types
import TypedBindings.Proofs.TypeScript.Literals

/-!
# Literals of constants

A literal keeps everything of a constant but the kinds of integers and of texts.

* `Abi.Constant.untyped`: what a literal keeps.
* `literal_eq_iff`: constants with one literal.
* `literal_keeps_constant`: what the text of a literal says of its constant.
-/

namespace TypedBindings.Abi.Constant

mutual

/-- A constant without what its literal does not show: whether an integer is signed and whether a
text is an address. -/
def untyped : Constant → Constant
  | .bool b => .bool b
  | .u256 n => .i256 n
  | .i256 n => .i256 n
  | .address s => .byteVec s
  | .byteVec s => .byteVec s
  | .array items => .array (untypedAll items)

/-- Constants of an array without their integer types. -/
def untypedAll : List Constant → List Constant
  | [] => []
  | c :: rest => c.untyped :: untypedAll rest

end

mutual

/-- How the integers and texts of a constant are written, in their order. -/
def words : Constant → List String
  | .bool _ => []
  | .u256 n => ["BigInt(\"" ++ toString n ++ "\")"]
  | .i256 n => ["BigInt(\"" ++ toString n ++ "\")"]
  | .address s => [Text.quote s]
  | .byteVec s => [Text.quote s]
  | .array items => wordsOfAll items

/-- The words of an array's constants, in their order. -/
def wordsOfAll : List Constant → List String
  | [] => []
  | c :: rest => c.words ++ wordsOfAll rest

end

end TypedBindings.Abi.Constant

namespace TypedBindings.Binding

open Abi TypeScript

mutual

/-- What is emitted for a constant is a literal, all the way down. -/
theorem isLiteral_literal (v : Constant) : IsLiteral (literal v) := by
  match v with
  | .bool b => exact .bool b
  | .u256 n => exact .bigInt _
  | .i256 n => exact .bigInt _
  | .address s => exact .str s
  | .byteVec s => exact .str s
  | .array items => exact .array (isLiteral_literals items)

theorem isLiteral_literals (items : List Constant) : ∀ e ∈ literals items, IsLiteral e := by
  match items with
  | [] => exact nofun
  | v :: rest => exact List.forall_mem_cons.2 ⟨isLiteral_literal v, isLiteral_literals rest⟩

end

/-! ## What a literal drops -/

/-- Only a constant that is this truth value is emitted as it. -/
theorem literal_eq_bool_iff {w : Constant} {b : Bool} :
    literal w = .bool b ↔ w.untyped = .bool b := by
  cases w <;> simp [literal, Constant.untyped]

/-- Addresses and byte strings are both emitted as strings. -/
theorem literal_eq_str_iff {w : Constant} {s : String} :
    literal w = .str s ↔ w.untyped = .byteVec s := by
  cases w <;> simp [literal, Constant.untyped]

/-- The digits tell the integer, whatever its type is. -/
theorem literal_eq_bigInt_iff {w : Constant} {n : Int} :
    literal w = .bigInt (toString n) ↔ w.untyped = .i256 n := by
  cases w with
  | u256 m =>
    have hm : literal (.u256 m) = .bigInt (toString (m : Int)) := rfl
    rw [hm, Constant.untyped, Expr.bigInt.injEq, Text.toString_int_inj, Constant.i256.injEq]
  | i256 m =>
    rw [literal, Constant.untyped, Expr.bigInt.injEq, Text.toString_int_inj, Constant.i256.injEq]
  | _ => exact iff_of_false nofun nofun

mutual

theorem literal_eq_iff (v w : Constant) : literal v = literal w ↔ v.untyped = w.untyped := by
  match v with
  | .bool b => exact eq_comm.trans (literal_eq_bool_iff.trans eq_comm)
  | .u256 n => exact eq_comm.trans ((literal_eq_bigInt_iff (n := n)).trans eq_comm)
  | .i256 n => exact eq_comm.trans (literal_eq_bigInt_iff.trans eq_comm)
  | .address s => exact eq_comm.trans (literal_eq_str_iff.trans eq_comm)
  | .byteVec s => exact eq_comm.trans (literal_eq_str_iff.trans eq_comm)
  | .array items =>
    cases w with
    | array items' =>
      rw [literal, literal, Constant.untyped, Constant.untyped, Expr.array.injEq,
        Constant.array.injEq]
      exact literals_eq_iff items items'
    | _ => exact iff_of_false nofun nofun

/-- The same for the constants of an array. -/
theorem literals_eq_iff (vs ws : List Constant) :
    literals vs = literals ws ↔ Constant.untypedAll vs = Constant.untypedAll ws := by
  match vs, ws with
  | [], [] => exact iff_of_true rfl rfl
  | [], w :: ws => exact iff_of_false nofun nofun
  | v :: vs, [] => exact iff_of_false nofun nofun
  | v :: vs, w :: ws =>
    rw [literals, literals, Constant.untypedAll, Constant.untypedAll, List.cons.injEq,
      List.cons.injEq, literal_eq_iff v w, literals_eq_iff vs ws]

end

/-! ## What a literal shows -/

mutual

/-- The words of a literal's text are the words of the constant. -/
theorem filterMap_tokens_literal (v : Constant) :
    (literal v).tokens.filterMap Token.word? = v.words := by
  match v with
  | .bool b => rfl
  | .u256 n => exact List.filterMap_cons_some (word?_bigInt n)
  | .i256 n => exact List.filterMap_cons_some (word?_bigInt n)
  | .address s => rfl
  | .byteVec s => rfl
  | .array items =>
    rw [literal, filterMap_word?_array, Constant.words]
    exact flatMap_tokens_literals items

/-- The same for the constants of an array. -/
theorem flatMap_tokens_literals (items : List Constant) :
    ((literals items).flatMap fun e => e.tokens.filterMap Token.word?) =
      Constant.wordsOfAll items := by
  match items with
  | [] => rfl
  | v :: rest =>
    rw [literals, List.flatMap_cons, filterMap_tokens_literal v, flatMap_tokens_literals rest,
      Constant.wordsOfAll]

end

/-- **A literal keeps its constant.** Two literals have one text exactly if their constants differ
in nothing but whether integers are signed and texts are addresses; and wherever a literal is
written, each integer stands in it as a big integer of its decimal digits, in its order, and there
is no digit outside of big integers and string literals. -/
theorem literal_keeps_constant (v w : Constant) :
    ((literal v).text = (literal w).text ↔ v.untyped = w.untyped) ∧
      ∀ p : Printer, ∃ s, ((literal v).write false p).text = p.text ++ s ∧
        Strung v.words s.toList := by
  have htext : ∀ u, HasTokens (literal u).tokens (literal u).text := fun u =>
    ((literal u).prints_layout false).shows.hasTokens_text
  refine ⟨⟨fun h => ?_, fun h => ?_⟩, fun p => ?_⟩
  -- one text has the tokens of one literal, and a literal gives its constant
  · refine (literal_eq_iff v w).1 ?_
    exact (isLiteral_literal v).eq_of_hasTokens (isLiteral_literal w) (htext v) (h ▸ htext w)
  · rw [(literal_eq_iff v w).2 h]
  · obtain ⟨s, hs, htokens⟩ := (literal v).exists_hasTokens_write p
    refine ⟨s, hs, ?_⟩
    rw [← filterMap_tokens_literal]
    exact Arranged.strung htokens (isLiteral_literal v).isOfLiteral

example : (literal (.array [.array [.u256 1, .byteVec "],["], .i256 (-3)])).text =
    "[[BigInt(\"1\"), \"],[\"], BigInt(\"-3\")]" := by decide

end TypedBindings.Binding
