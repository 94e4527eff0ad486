import TypedBindings.Proofs.Json.Record
import TypedBindings.Text.Pieces
import TypedBindings.TypeScript.SourceUnit

/-!
# What expressions and statements mean

The part of the language that generated functions are written in, evaluated in the ordinary way.
Objects are plain maps: a name that was never set reads as `undefined`, and nothing is inherited.
Types have no part in evaluation.

* `Value.ofJson`: the value that a JSON document is imported as.
* `Expr.eval`, `Stmt.run`: the value of an expression, and what a statement does.
* `FunctionDecl.apply`: calls a function.

Arrays and objects are not compared with each other, a regular expression matches if it is a class of
characters, and what generated functions do not use has no meaning; evaluation is at fault there
(`Fault.unmodelled`) rather than wrong.
-/

namespace TypedBindings.TypeScript

/-! ## Values -/

/-- A value of a running program. -/
inductive Value where
  | undefined
  | null
  | bool (value : Bool)
  | num (value : Int)
  /-- A number that a document gives by a literal. -/
  | real (literal : String)
  | str (text : String)
  | arr (items : List Value)
  | obj (members : List (String × Value))
  /-- What `Error` makes of a message. -/
  | error (message : Value)
  /-- The instance of a contract at an address. -/
  | handle (className : String) (address : Value)
  | regex (source flags : String)

/-- Why an evaluation cannot go on. -/
inductive Fault where
  /-- A property of `undefined` is read. -/
  | readOfUndefined (name : String)
  | readOfNull (name : String)
  /-- A name stands for nothing. -/
  | unbound (path : String)
  | unmodelled
deriving DecidableEq, Repr

/-- How an evaluation ends if it gives no value. -/
inductive Abrupt where
  | thrown (value : Value)
  | fault (fault : Fault)

abbrev Eval (α : Type) := Except Abrupt α

namespace Value

mutual

/-- The value of a document. Of several members with one name the last counts. -/
def ofJson : Json → Value
  | .null => .null
  | .bool b => .bool b
  | .int n => .num n
  | .real literal => .real literal
  | .str s => .str s
  | .arr items => .arr (ofItems items)
  | .obj members => .obj (ofMembers [] members)
  | .defect _ => .undefined

def ofItems : List Json → List Value
  | [] => []
  | v :: rest => ofJson v :: ofItems rest

def ofMembers (done : List (String × Value)) : List (String × Json) → List (String × Value)
  | [] => done
  | (k, v) :: rest => ofMembers (OrderedMap.put k (ofJson v) done) rest

end

/-- Whether a value counts as true in a test. -/
def truth : Value → Eval Bool
  | .undefined => .ok false
  | .null => .ok false
  | .bool b => .ok b
  | .num n => .ok (n != 0)
  | .real _ => .error (.fault .unmodelled)
  | .str s => .ok (s != "")
  | _ => .ok true

def isNumber : Value → Bool
  | .num _ => true
  | .real _ => true
  | _ => false

/-- Whether a value has an identity of its own. -/
def isCompound : Value → Bool
  | .arr _ => true
  | .obj _ => true
  | .error _ => true
  | .handle _ _ => true
  | .regex _ _ => true
  | _ => false

/-- Whether two values are the same, as `===` tells. -/
def same : Value → Value → Eval Bool
  | .undefined, .undefined => .ok true
  | .null, .null => .ok true
  | .bool a, .bool b => .ok (a == b)
  | .num a, .num b => .ok (a == b)
  | .str a, .str b => .ok (a == b)
  | a, b =>
    if a.isNumber && b.isNumber || a.isCompound && b.isCompound then .error (.fault .unmodelled)
    else .ok false

/-- A property of a value, by its name. -/
def get (name : String) : Value → Eval Value
  | .undefined => .error (.fault (.readOfUndefined name))
  | .null => .error (.fault (.readOfNull name))
  | .obj members => .ok ((members.lookup name).getD .undefined)
  | .arr items => .ok (if name = "length" then .num items.length else .undefined)
  | .error message => .ok (if name = "message" then message else .undefined)
  | _ => .error (.fault .unmodelled)

/-- What properties of properties lead to. -/
def follow (v : Value) (names : List String) : Eval Value :=
  names.foldlM (fun v name => v.get name) v

/-- A property of a value, by a computed key. -/
def getAt : Value → Value → Eval Value
  | .arr items, .num n => .ok (if n < 0 then .undefined else (items[n.toNat]?).getD .undefined)
  | v, .str name => v.get name
  | .undefined, _ => .error (.fault (.readOfUndefined ""))
  | .null, _ => .error (.fault (.readOfNull ""))
  | _, _ => .error (.fault .unmodelled)

/-- Adds the members of a value to those of an object that is made. -/
def spread (done : List (String × Value)) : Value → Eval (List (String × Value))
  | .undefined => .ok done
  | .null => .ok done
  | .obj members => .ok (members.foldl (fun done (k, v) => OrderedMap.put k v done) done)
  | _ => .error (.fault .unmodelled)

/-- The value of an operator with both operands evaluated. -/
def operate : Operator → Value → Value → Eval Value
  | .strictEq, a, b => (same a b).map .bool
  | .greater, .num a, .num b => .ok (.bool (decide (b < a)))
  | .add, .num a, .num b => .ok (.num (a + b))
  | .add, .str a, .str b => .ok (.str (a ++ b))
  | _, _, _ => .error (.fault .unmodelled)

/-- The characters of a class up to its closing bracket. A mark behind a backslash stands for itself;
ranges and classes of other kinds are not read. -/
def classMembers? : List Char → Option (List Char)
  | [']'] => some []
  | '\\' :: c :: rest => if c.isAlphanum then none else (classMembers? rest).map (c :: ·)
  | c :: rest =>
    if c ∈ ['\\', '[', ']', '^', '-'] then none else (classMembers? rest).map (c :: ·)
  | [] => none

/-- The characters that a regular expression matches, if it is a class of them. -/
def classOf? (source : String) : Option (List Char) :=
  match source.toList with
  | '[' :: rest => classMembers? rest
  | _ => none

/-- A text in which every character of a class is replaced. -/
def replaceEach (chars : List Char) (replacement text : String) : String :=
  String.ofList (text.toList.flatMap fun c => if c ∈ chars then replacement.toList else [c])

/-- A text in which everything is replaced that a regular expression matches. A `$` in the
replacement would have a meaning of its own. -/
def replace (source flags replacement text : String) : Eval Value :=
  match classOf? source with
  | some chars =>
    if flags = "g" ∧ '$' ∉ replacement.toList then .ok (.str (replaceEach chars replacement text))
    else .error (.fault .unmodelled)
  | none => .error (.fault .unmodelled)

/-- The first of some values for which a test holds. -/
def find (test : Value → Eval Value) : List Value → Eval Value
  | [] => .ok .undefined
  | v :: rest => do
    if ← (← test v).truth then return v else find test rest

end Value

/-! ## Functions -/

/-- An argument of a call: a value, or a function that is written in its place. -/
inductive Arg where
  | value (value : Value)
  | function (apply : List Value → Eval Value)

/-- What the names mean that a function does not bind itself. -/
structure Host where
  /-- The values that are imported. -/
  imported : String → Option Value := fun _ => none
  /-- The functions of the module and its packages. -/
  call : String → List Value → Eval Value := fun path _ => .error (.fault (.unbound path))
  /-- The static methods of imported classes, by class and name. Variables do not hide them. -/
  method? : String → String → Option (List Value → Eval Value) := fun _ _ => none

/-- Local variables, the innermost first. -/
abbrev Scope := List (String × Value)

/-- Binds parameters to arguments; a missing argument is `undefined`. -/
def bindParams : List Param → List Value → Scope
  | [], _ => []
  | p :: rest, [] => (p.name, .undefined) :: bindParams rest []
  | p :: rest, v :: vs => (p.name, v) :: bindParams rest vs

/-- The arguments of a call that takes values only. -/
def valuesOf : List Arg → Eval (List Value)
  | [] => .ok []
  | .value v :: rest => do return v :: (← valuesOf rest)
  | .function _ :: _ => .error (.fault .unmodelled)

/-- The names in a dotted path. -/
def namesOfPath (path : String) : List String :=
  (Text.pieces (· == '.') path.toList).map String.ofList

/-- The value of a dotted path. A local variable hides what is imported under its name. -/
def Host.read (h : Host) (s : Scope) (path : String) : Eval Value :=
  match namesOfPath path with
  | [] => .error (.fault (.unbound path))
  | name :: names =>
    match (s.lookup name).or (h.imported name) with
    | none => .error (.fault (.unbound path))
    | some v => v.follow names

/-- Calls a function by its path. -/
def Host.invoke (h : Host) (path : String) (args : List Arg) : Eval Value := do
  let values ← valuesOf args
  if path = "Error" then return .error (values.headD .undefined)
  else if path = "Array.isArray" then
    match values with
    | .arr _ :: _ => return .bool true
    | _ => return .bool false
  else h.call path values

/-- Calls a method of a value. -/
def Value.invoke (name : String) : Value → List Arg → Eval Value
  | .arr items, [.function test] =>
    if name = "find" then Value.find (fun v => test [v]) items else .error (.fault .unmodelled)
  | .str text, [.value (.regex source flags), .value (.str replacement)] =>
    if name = "replace" then Value.replace source flags replacement text
    else .error (.fault .unmodelled)
  | _, _ => .error (.fault .unmodelled)

/-! ## Expressions and statements -/

/-- How a statement ends. -/
inductive Completion where
  | next (scope : Scope)
  | returned (value : Value)

mutual

/-- The value of an expression. -/
@[simp] def Expr.eval (h : Host) : Expr → Scope → Eval Value
  | .ident path, s => h.read s path
  | .str text, _ => .ok (.str text)
  | .bool b, _ => .ok (.bool b)
  | .num n, _ => .ok (.num n)
  | .undefined, _ => .ok .undefined
  | .array elements, s => do return .arr (← valuesOf (← evalArgs h elements s))
  | .object entries, s => do return .obj (← evalEntries h entries s [])
  | .call (.ident path) _ args, s => do h.invoke path (← evalArgs h args s)
  | .call (.member (.ident path) name) _ args, s => do
    match h.method? path name with
    | some apply => apply (← valuesOf (← evalArgs h args s))
    | none => (← h.read s path).invoke name (← evalArgs h args s)
  | .call (.member target name) _ args, s => do
    (← target.eval h s).invoke name (← evalArgs h args s)
  | .member target name, s => do (← target.eval h s).get name
  | .index target key, s => do (← target.eval h s).getAt (← key.eval h s)
  | .cast value _, s => value.eval h s
  | .paren inner, s => inner.eval h s
  | .cond test yes no, s => do
    if ← (← test.eval h s).truth then yes.eval h s else no.eval h s
  | .binary left op right, s => do Value.operate op (← left.eval h s) (← right.eval h s)
  | _, _ => .error (.fault .unmodelled)

/-- The arguments of a call, or the elements of an array, from left to right. -/
@[simp] def evalArgs (h : Host) : List Expr → Scope → Eval (List Arg)
  | [], _ => .ok []
  | .arrow head body :: rest, s => do
    return .function (fun vs => body.eval h (bindParams head.params vs ++ s)) ::
      (← evalArgs h rest s)
  | e :: rest, s => do
    let v ← e.eval h s
    return .value v :: (← evalArgs h rest s)

/-- The members of an object literal, added to those that are there already. -/
@[simp] def evalEntries (h : Host) :
    List (Entry Expr) → Scope → List (String × Value) → Eval (List (String × Value))
  | [], _, done => .ok done
  | .field key value :: rest, s, done => do
    let v ← value.eval h s
    evalEntries h rest s (OrderedMap.put key v done)
  | .spread value :: rest, s, done => do
    let done ← (← value.eval h s).spread done
    evalEntries h rest s done

/-- Carries a statement out. -/
@[simp] def Stmt.run (h : Host) : Stmt → Scope → Eval Completion
  | .ret value, s => do return .returned (← value.eval h s)
  | .expr value, s => do
    let _ ← value.eval h s
    return .next s
  | .declare declarator value, s => do return .next ((declarator.name, ← value.eval h s) :: s)
  | .branch test yes no, s => do
    let chosen ← if ← (← test.eval h s).truth then runAll h yes s else runAll h no s
    match chosen with
    | .returned v => return .returned v
    -- What a block declares ends with it.
    | .next _ => return .next s
  | .throw value, s => do throw (.thrown (← value.eval h s))

/-- Carries statements out until one returns. -/
@[simp] def runAll (h : Host) : List Stmt → Scope → Eval Completion
  | [], s => .ok (.next s)
  | st :: rest, s => do
    match ← st.run h s with
    | .returned v => return .returned v
    | .next s => runAll h rest s

end

/-- Calls a function with some arguments. -/
def FunctionDecl.apply (h : Host) (f : FunctionDecl) (args : List Value) : Eval Value := do
  match ← runAll h f.body (bindParams f.params args) with
  | .returned v => return v
  | .next _ => return .undefined

/-! ## Values of documents -/

namespace Value

theorem ofItems_eq_map (items : List Json) : ofItems items = items.map ofJson := by
  induction items with
  | nil => rfl
  | cons v rest ih => rw [ofItems, ih, List.map_cons]

theorem lookup_ofMembers_foldl (members : List (String × Json)) (k : String) :
    ∀ (done : List (String × Value)) (read : List (String × Json)),
      done.lookup k = (read.lookup k).map ofJson →
      (ofMembers done members).lookup k =
        ((members.foldl (fun read (k, v) => OrderedMap.put k v read) read).lookup k).map ofJson := by
  induction members with
  | nil => intro done read h; exact h
  | cons m rest ih =>
    obtain ⟨key, v⟩ := m
    intro done read h
    rw [ofMembers, List.foldl_cons]
    refine ih _ _ ?_
    rw [OrderedMap.lookup_put, OrderedMap.lookup_put]
    split <;> simp [h]

/-- The members of an object that is imported are those of the document that count. -/
theorem lookup_ofMembers (members : List (String × Json)) (k : String) :
    (ofMembers [] members).lookup k = ((OrderedMap.ofList members).lookup k).map ofJson :=
  lookup_ofMembers_foldl members k [] [] rfl

theorem nodup_keys_ofMembers {done : List (String × Value)} {members : List (String × Json)}
    (h : (done.map Prod.fst).Nodup) : ((ofMembers done members).map Prod.fst).Nodup := by
  induction members generalizing done with
  | nil => exact h
  | cons m rest ih => exact ih (OrderedMap.nodup_keys_put h _ _)

/-- The value of a member that may be missing. -/
def ofMember (v : Option Json) : Value := (v.map ofJson).getD .undefined

theorem get_ofJson_obj (members : List (String × Json)) (name : String) :
    (ofJson (.obj members)).get name = .ok (ofMember ((Json.obj members).field? name)) := by
  rw [ofJson, get, lookup_ofMembers, ofMember, Json.field?]

def isUndefined : Value → Bool
  | .undefined => true
  | _ => false

theorem same_undefined (v : Value) : same v .undefined = .ok v.isUndefined := by
  cases v <;> rfl

end Value

/-! ## Steps of an evaluation -/

variable {h : Host} {s : Scope}

theorem Host.read_local {name : String} {v : Value} (hp : namesOfPath name = [name])
    (hv : s.lookup name = some v) : h.read s name = .ok v := by
  unfold Host.read; rw [hp]; simp [hv, Value.follow]; rfl

theorem Host.read_member {path name field : String} {v : Value}
    (hp : namesOfPath path = [name, field]) (hv : s.lookup name = some v) :
    h.read s path = v.get field := by
  unfold Host.read; rw [hp]; simp [hv, Value.follow]

theorem eval_isUndefined {e : Expr} {v : Value} (he : e.eval h s = .ok v) :
    (Expr.isUndefined e).eval h s = .ok (.bool v.isUndefined) := by
  unfold Expr.isUndefined
  rw [Expr.eval, he]
  show Value.operate .strictEq v .undefined = _
  rw [Value.operate, Value.same_undefined]; rfl

theorem eval_cond {test yes no : Expr} {b : Bool} (ht : test.eval h s = .ok (.bool b)) :
    (Expr.cond test yes no).eval h s = if b then yes.eval h s else no.eval h s := by
  rw [Expr.eval, ht]; rfl

theorem eval_callNamed {path : String} {arg : Expr} {v : Value} (ha : arg.eval h s = .ok v)
    (hf : ∀ head body, arg ≠ .arrow head body) :
    (Expr.callNamed path [arg]).eval h s = h.invoke path [.value v] := by
  unfold Expr.callNamed
  rw [Expr.eval, evalArgs, ha, evalArgs]
  · rfl
  · exact hf

theorem eval_callMethod {path name : String} {args : List Expr} {v : Value} {vs : List Arg}
    (hm : h.method? path name = none) (hv : h.read s path = .ok v)
    (ha : evalArgs h args s = .ok vs) :
    (Expr.callMethod (.ident path) name args).eval h s = v.invoke name vs := by
  unfold Expr.callMethod
  rw [Expr.eval, hm]
  dsimp only
  rw [hv, ha]; rfl

theorem eval_error {message : Expr} {v : Value} (hv : message.eval h s = .ok v)
    (hf : ∀ head body, message ≠ .arrow head body) :
    (Expr.callNamed "Error" [message]).eval h s = .ok (.error v) := by
  rw [eval_callNamed hv hf]; rfl

/-- Searching values is searching what they stand for. -/
theorem Value.find_spec {α : Type} {R : α → Value → Prop} {xs : List α} {vs : List Value}
    {test : Value → Eval Value} {p : α → Bool} (hvs : List.Forall₂ R xs vs)
    (htest : ∀ x v, R x v → test v = .ok (.bool (p x))) :
    ∃ found, Value.find test vs = .ok found ∧
      (xs.find? p).elim (found = .undefined) (R · found) := by
  induction hvs with
  | nil => exact ⟨.undefined, rfl, rfl⟩
  | @cons x v xs vs hx _ ih =>
    rw [Value.find, htest x v hx]
    cases hp : p x with
    | true =>
      refine ⟨v, rfl, ?_⟩
      rw [List.find?_cons_of_pos hp]
      exact hx
    | false =>
      have hnot : ¬ p x = true := by simp [hp]
      rw [List.find?_cons_of_neg hnot]
      exact ih

/-! ### Object literals -/

theorem evalEntries_append (entries more : List (Entry Expr)) (done : List (String × Value)) :
    evalEntries h (entries ++ more) s done =
      evalEntries h entries s done >>= evalEntries h more s := by
  induction entries generalizing done with
  | nil => rfl
  | cons e rest ih =>
    cases e with
    | field key value =>
      rw [List.cons_append, evalEntries, evalEntries]
      cases value.eval h s with
      | error a => rfl
      | ok v => exact ih _
    | spread value =>
      rw [List.cons_append, evalEntries, evalEntries]
      cases value.eval h s with
      | error a => rfl
      | ok v =>
        change (v.spread done >>= _) = (v.spread done >>= _) >>= _
        cases v.spread done with
        | error a => rfl
        | ok done => exact ih _

/-- Named fields put their values under their keys, from the first to the last. -/
theorem evalEntries_fields {α : Type} {xs : List α} {key : α → String} {e : α → Expr}
    {w : α → Value} (he : ∀ x ∈ xs, (e x).eval h s = .ok (w x)) (done : List (String × Value)) :
    evalEntries h (xs.map fun x => .field (key x) (e x)) s done =
      .ok (xs.foldl (fun done x => OrderedMap.put (key x) (w x) done) done) := by
  induction xs generalizing done with
  | nil => rfl
  | cons x rest ih =>
    rw [List.map_cons, evalEntries, he x List.mem_cons_self]
    exact ih (fun y hy => he y (List.mem_cons_of_mem _ hy)) _

/-- Named fields none of which can be evaluated, because a property of `undefined` is read. -/
theorem eval_record_fault {fields : List (String × Expr)} (hne : fields ≠ [])
    (hf : ∀ f ∈ fields, ∃ name, f.2.eval h s = .error (.fault (.readOfUndefined name))) :
    ∃ name, (Expr.record fields).eval h s = .error (.fault (.readOfUndefined name)) := by
  cases fields with
  | nil => exact absurd rfl hne
  | cons f rest =>
    obtain ⟨name, he⟩ := hf f List.mem_cons_self
    refine ⟨name, ?_⟩
    unfold Expr.record
    rw [Expr.eval, List.map_cons, evalEntries, he]; rfl

/-! ### Statements -/

variable {rest : List Stmt}

theorem runAll_declare {d : Declarator} {e : Expr} {v : Value} (he : e.eval h s = .ok v) :
    runAll h (.declare d e :: rest) s = runAll h rest ((d.name, v) :: s) := by
  rw [runAll, Stmt.run, he]; rfl

theorem runAll_declare_error {d : Declarator} {e : Expr} {a : Abrupt} (he : e.eval h s = .error a) :
    runAll h (.declare d e :: rest) s = .error a := by
  rw [runAll, Stmt.run, he]; rfl

theorem runAll_ret {e : Expr} : runAll h (.ret e :: rest) s = (e.eval h s).map .returned := by
  rw [runAll, Stmt.run]; cases e.eval h s <;> rfl

theorem runAll_throw {e : Expr} {v : Value} (he : e.eval h s = .ok v) :
    runAll h (.throw e :: rest) s = .error (.thrown v) := by
  rw [runAll, Stmt.run, he]; rfl

/-- A test that fails, with nothing to do then. -/
theorem runAll_branch_false {test : Expr} {yes : List Stmt}
    (ht : test.eval h s = .ok (.bool false)) :
    runAll h (.branch test yes [] :: rest) s = runAll h rest s := by
  rw [runAll, Stmt.run, ht]; rfl

/-- A test that holds, where what is done then ends the function. -/
theorem runAll_branch_true {test : Expr} {yes no : List Stmt} {result : Eval Value}
    (ht : test.eval h s = .ok (.bool true))
    (hy : runAll h yes s = result.map .returned) :
    runAll h (.branch test yes no :: rest) s = result.map .returned := by
  rw [runAll, Stmt.run, ht]
  change (runAll h yes s >>= _) >>= _ = _
  rw [hy]; cases result <;> rfl

/-- A test that fails, where what is done otherwise ends the function. -/
theorem runAll_branch_else {test : Expr} {yes no : List Stmt} {result : Eval Value}
    (ht : test.eval h s = .ok (.bool false))
    (hn : runAll h no s = result.map .returned) :
    runAll h (.branch test yes no :: rest) s = result.map .returned := by
  rw [runAll, Stmt.run, ht]
  change (runAll h no s >>= _) >>= _ = _
  rw [hn]; cases result <;> rfl

/-- What a body that ends with a value or breaks off gives is what the call gives. -/
theorem FunctionDecl.apply_eq {f : FunctionDecl} {args : List Value} {result : Eval Value}
    (hb : runAll h f.body (bindParams f.params args) = result.map .returned) :
    f.apply h args = result := by
  unfold FunctionDecl.apply
  rw [hb]; cases result <;> rfl

end TypedBindings.TypeScript
