import TypedBindings.Abi.Constant
import TypedBindings.Proofs.Json.Merged
import TypedBindings.Proofs.Json.Printing
import TypedBindings.Proofs.Results

/-!
# Constants survive their documents

A format says what documents stand for a constant: how a tag and a content are put together, and
what contents are numbers. Constants are written in one format and read in a wider one.

* `Constant.IsIn`: a document stands for a constant in a format.
* `Constant.isIn_written`: every constant is written in the written format.
* `Constant.ofJson_eq_ok_iff`: exactly the documents of the accepted format are read.
* `Constant.survives_documents`: what is read is written, and reads back, as the same constant.
-/

namespace TypedBindings.Abi

open Json Text

/-! ## Formats -/

/-- How documents stand for constants. -/
structure ConstantFormat where
  /-- A document of a kind, made of a content. -/
  tagged : ConstantKind → (content document : Json) → Prop
  natural : Nat → Json → Prop
  integer : Int → Json → Prop

namespace Constant

mutual

/-- A document stands for a constant in a format. -/
def IsIn (f : ConstantFormat) : Constant → Json → Prop
  | .bool b, v => f.tagged .bool (.bool b) v
  | .u256 n, v => ∃ content, f.natural n content ∧ f.tagged .u256 content v
  | .i256 n, v => ∃ content, f.integer n content ∧ f.tagged .i256 content v
  | .address s, v => f.tagged .address (.str s) v
  | .byteVec s, v => f.tagged .byteVec (.str s) v
  | .array cs, v => ∃ items, AreIn f cs items ∧ f.tagged .array (.arr items) v

/-- Documents stand for constants one by one. -/
def AreIn (f : ConstantFormat) : List Constant → List Json → Prop
  | [], items => items = []
  | c :: cs, items => ∃ v vs, items = v :: vs ∧ c.IsIn f v ∧ AreIn f cs vs

end

/-- **The written format**: an object of the tag and the content, in this order; a number is a
string of its digits, without a zero in front of others, and a minus if it is negative. -/
def written : ConstantFormat where
  tagged kind content v := v = .obj [("type", .str kind.tag), ("value", content)]
  natural n v := ∃ s, v = .str s ∧ IsDecimal s.toList n
  integer n v := ∃ s digits, v = .str s ∧ IsDecimal digits n.natAbs ∧
    s.toList = if n < 0 then '-' :: digits else digits

/-- The members by which a constant is read. -/
def ownMembers (members : List (String × Json)) : List (String × Json) :=
  members.filter fun m => m.1 = "type" ∨ m.1 = "value"

/-- The other members can all be passed over. -/
def PassesOthers (members : List (String × Json)) : Prop :=
  ∀ m ∈ members, ¬ (m.1 = "type" ∨ m.1 = "value") → m.2.isPassable = true

/-- A document of a kind, as it is accepted. -/
inductive IsTagged (kind : ConstantKind) (content : Json) : Json → Prop
  | pair : IsTagged kind content (.arr [.str kind.tag, content])
  | tagFirst {members : List (String × Json)}
      (own : ownMembers members = [("type", .str kind.tag), ("value", content)])
      (others : PassesOthers members) :
      IsTagged kind content (.obj members)
  /-- A content that waits for its tag is held as a whole. -/
  | contentFirst {members : List (String × Json)}
      (own : ownMembers members = [("value", content), ("type", .str kind.tag)])
      (others : PassesOthers members)
      (sound : content.isSound = true) :
      IsTagged kind content (.obj members)

/-- **The accepted format**: a pair, or an object of the tag and the content in either order, with
other members between them; a number is a JSON integer, or a string that spells it, with blanks
around the spelling. -/
def accepted : ConstantFormat where
  tagged := IsTagged
  natural n v := v = .int n ∨
    ∃ s body, v = .str s ∧ IsPadded body s.toList ∧ SpellsNatural body n
  integer n v := v = .int n ∨
    ∃ s body, v = .str s ∧ IsPadded body s.toList ∧ SpellsInteger body n

/-! ## Tags and contents -/

end Constant

theorem ConstantKind.ofJson_tag (kind : ConstantKind) :
    ConstantKind.ofJson (.str kind.tag) = .ok kind := by
  cases kind <;> rfl

/-- A kind is read from its own tag only. -/
theorem ConstantKind.ofJson_eq_ok_iff {v : Json} {kind : ConstantKind} :
    ConstantKind.ofJson v = .ok kind ↔ v = .str kind.tag := by
  refine ⟨fun h => ?_, fun h => h ▸ kind.ofJson_tag⟩
  cases v with
  | str s =>
    unfold ConstantKind.ofJson at h
    dsimp only at h
    cases hfind : ConstantKind.all.find? fun k => k.tag == s with
    | none => rw [hfind] at h; cases h
    | some k =>
      rw [hfind] at h
      cases h
      have htag := List.find?_some hfind
      rw [eq_of_beq htag]
  | _ => cases h

namespace Constant

section

variable {name : String} {v : Json} {rest : List (String × Json)}

theorem ownMembers_type : ownMembers (("type", v) :: rest) = ("type", v) :: ownMembers rest := rfl

theorem ownMembers_value : ownMembers (("value", v) :: rest) = ("value", v) :: ownMembers rest := rfl

/-- Other members are no part of a constant. -/
theorem ownMembers_other (h : ¬ (name = "type" ∨ name = "value")) :
    ownMembers ((name, v) :: rest) = ownMembers rest :=
  List.filter_cons_of_neg (by simpa using h)

/-- The tag and the content need not be passed over. -/
theorem passesOthers_own (h : name = "type" ∨ name = "value") :
    PassesOthers ((name, v) :: rest) ↔ PassesOthers rest :=
  List.forall_mem_cons.trans (and_iff_right fun hother => absurd h hother)

theorem passesOthers_other (h : ¬ (name = "type" ∨ name = "value")) :
    PassesOthers ((name, v) :: rest) ↔ v.isPassable = true ∧ PassesOthers rest :=
  List.forall_mem_cons.trans (and_congr_left' (imp_iff_right h))

end

/-! ### Member by member -/

section

variable {v : Json} {rest members : List (String × Json)} {kind : ConstantKind} {c c' : Constant}

/-- A member that is not asked for is passed over. -/
theorem ofMembers_other {name : String} (h : ¬ (name = "type" ∨ name = "value"))
    {progress : Progress} :
    ofMembers ((name, v) :: rest) progress = .ok c ↔
      v.isPassable = true ∧ ofMembers rest progress = .ok c := by
  rw [not_or] at h
  rw [ofMembers.eq_def]
  simp only [h.1, h.2, if_false]
  split
  · next hv => simp [hv]
  · next hv => simp [hv]

/-- The tag in front: the kind waits for its content. -/
theorem ofMembers_type_nothing :
    ofMembers (("type", v) :: rest) .nothing =
      ConstantKind.ofJson v >>= fun kind => ofMembers rest (.kind kind) := by
  rw [ofMembers.eq_def]; rfl

/-- The tag behind the content: the content is read when the kind is known. -/
theorem ofMembers_type_content {read : ConstantKind → Except Fault Constant} :
    ofMembers (("type", v) :: rest) (.content read) =
      ConstantKind.ofJson v >>= fun kind => read kind >>= fun c => ofMembers rest (.whole c) := by
  rw [ofMembers.eq_def]; rfl

/-- The content in front is held as a whole, so it must be sound. -/
theorem ofMembers_value_nothing :
    ofMembers (("value", v) :: rest) .nothing = .ok c ↔
      v.isSound = true ∧ ofMembers rest (.content (ofContent v)) = .ok c := by
  rw [ofMembers.eq_def]
  simp only [show ¬ "value" = "type" by decide, if_false, if_true]
  split
  · next hv => simp [hv]
  · next hv => simp [hv]

/-- The content behind the tag is read at once. -/
theorem ofMembers_value_kind :
    ofMembers (("value", v) :: rest) (.kind kind) =
      ofContent v kind >>= fun c => ofMembers rest (.whole c) := by
  rw [ofMembers.eq_def]; rfl

/-- Behind the tag and the content stand other members only. -/
theorem ofMembers_whole :
    ofMembers members (.whole c) = .ok c' ↔
      PassesOthers members ∧ ownMembers members = [] ∧ c = c' := by
  induction members with
  | nil => rw [ofMembers.eq_def]; simp [ownMembers, PassesOthers]
  | cons m rest ih =>
    obtain ⟨name, v⟩ := m
    by_cases h : name = "type" ∨ name = "value"
    · -- a second tag or content is refused
      rw [passesOthers_own h, ofMembers.eq_def]
      rcases h with rfl | rfl <;> simp [ownMembers_type, ownMembers_value]
    · rw [ofMembers_other h, ownMembers_other h, passesOthers_other h, ih, and_assoc]

/-- Behind a tag stands the content. -/
theorem ofMembers_kind :
    ofMembers members (.kind kind) = .ok c ↔
      PassesOthers members ∧ ∃ content, ownMembers members = [("value", content)] ∧
        ofContent content kind = .ok c := by
  induction members with
  | nil => rw [ofMembers.eq_def]; simp [ownMembers]
  | cons m rest ih =>
    obtain ⟨name, v⟩ := m
    by_cases h : name = "type" ∨ name = "value"
    · rw [passesOthers_own h]
      rcases h with rfl | rfl
      · -- a second tag
        rw [ofMembers.eq_def]; simp [ownMembers_type]
      · simp only [ofMembers_value_kind, ownMembers_value, bind_eq_ok_iff, ofMembers_whole,
          List.cons.injEq, Prod.mk.injEq, true_and]
        constructor
        · rintro ⟨c', hc, hothers, hown, rfl⟩
          exact ⟨hothers, v, ⟨rfl, hown⟩, hc⟩
        · rintro ⟨hothers, _, ⟨rfl, hown⟩, hc⟩
          exact ⟨c, hc, hothers, hown, rfl⟩
    · rw [ofMembers_other h, ownMembers_other h, passesOthers_other h, ih, and_assoc]

/-- Behind a content that waits stands its tag. -/
theorem ofMembers_content {read : ConstantKind → Except Fault Constant} :
    ofMembers members (.content read) = .ok c ↔
      PassesOthers members ∧ ∃ kind, ownMembers members = [("type", .str kind.tag)] ∧
        read kind = .ok c := by
  induction members with
  | nil => rw [ofMembers.eq_def]; simp [ownMembers]
  | cons m rest ih =>
    obtain ⟨name, v⟩ := m
    by_cases h : name = "type" ∨ name = "value"
    · rw [passesOthers_own h]
      rcases h with rfl | rfl
      · simp only [ofMembers_type_content, ownMembers_type, bind_eq_ok_iff, ofMembers_whole,
          ConstantKind.ofJson_eq_ok_iff, List.cons.injEq, Prod.mk.injEq, true_and]
        constructor
        · rintro ⟨kind, hv, c', hc, hothers, hown, rfl⟩
          exact ⟨hothers, kind, ⟨hv, hown⟩, hc⟩
        · rintro ⟨hothers, kind, ⟨hv, hown⟩, hc⟩
          exact ⟨kind, hv, c, hc, hothers, hown, rfl⟩
      · -- a second content
        rw [ofMembers.eq_def]; simp [ownMembers_value]
    · rw [ofMembers_other h, ownMembers_other h, passesOthers_other h, ih, and_assoc]

/-- An object of a kind, by the members that count and their order. -/
theorem isTagged_obj {content : Json} :
    IsTagged kind content (.obj members) ↔
      PassesOthers members ∧
        (ownMembers members = [("type", .str kind.tag), ("value", content)] ∨
          content.isSound = true ∧
            ownMembers members = [("value", content), ("type", .str kind.tag)]) := by
  constructor
  · rintro (_ | ⟨own, others⟩ | ⟨own, others, sound⟩)
    · exact ⟨others, Or.inl own⟩
    · exact ⟨others, Or.inr ⟨sound, own⟩⟩
  · rintro ⟨others, own | ⟨sound, own⟩⟩
    · exact .tagFirst own others
    · exact .contentFirst own others sound

/-- **An object is read from its tag and its content**, whichever comes first. -/
theorem ofMembers_nothing :
    ofMembers members .nothing = .ok c ↔
      ∃ kind content, IsTagged kind content (.obj members) ∧ ofContent content kind = .ok c := by
  simp only [isTagged_obj]
  induction members with
  | nil => rw [ofMembers.eq_def]; simp [ownMembers]
  | cons m rest ih =>
    obtain ⟨name, v⟩ := m
    by_cases h : name = "type" ∨ name = "value"
    · simp only [passesOthers_own h]
      rcases h with rfl | rfl
      -- whichever of the two comes first is kept until the other one comes
      · simp only [ofMembers_type_nothing, bind_eq_ok_iff, ConstantKind.ofJson_eq_ok_iff,
          ofMembers_kind, ownMembers_type, List.cons.injEq, Prod.mk.injEq, true_and]
        constructor
        · rintro ⟨kind, hv, hothers, content, hown, hc⟩
          exact ⟨kind, content, ⟨hothers, Or.inl ⟨hv, hown⟩⟩, hc⟩
        · rintro ⟨kind, content, ⟨hothers, ⟨hv, hown⟩ | ⟨-, ⟨hname, -⟩, -⟩⟩, hc⟩
          · exact ⟨kind, hv, hothers, content, hown, hc⟩
          · exact absurd hname (by decide)
      · simp only [ofMembers_value_nothing, ofMembers_content, ownMembers_value, List.cons.injEq,
          Prod.mk.injEq, true_and]
        constructor
        · rintro ⟨hsound, hothers, kind, hown, hc⟩
          exact ⟨kind, v, ⟨hothers, Or.inr ⟨hsound, rfl, hown⟩⟩, hc⟩
        · rintro ⟨kind, content, ⟨hothers, ⟨⟨hname, -⟩, -⟩ | ⟨hsound, rfl, hown⟩⟩, hc⟩
          · exact absurd hname (by decide)
          · exact ⟨hsound, hothers, kind, hown, hc⟩
    · rw [ofMembers_other h, ih]
      simp only [ownMembers_other h, passesOthers_other h, and_assoc]
      constructor
      · rintro ⟨hv, kind, content, hdoc⟩; exact ⟨kind, content, hv, hdoc⟩
      · rintro ⟨kind, content, hv, hdoc⟩; exact ⟨hv, kind, content, hdoc⟩

/-- **A constant is read from the tag and the content of its document**, in any accepted form. -/
theorem ofJson_eq_ok_iff_ofContent :
    ofJson v = .ok c ↔ ∃ kind content, IsTagged kind content v ∧ ofContent content kind = .ok c := by
  rw [ofJson.eq_def]
  split
  · exact ofMembers_nothing
  · next tag =>
    refine iff_of_false (fun h => ?_) (by rintro ⟨_, _, ⟨⟩, -⟩)
    obtain ⟨_, -, h⟩ := exists_of_bind_eq_ok h
    cases h
  · next tag content more =>
    simp only [bind_eq_ok_iff, ConstantKind.ofJson_eq_ok_iff]
    constructor
    · rintro ⟨kind, rfl, c', hc, h⟩
      cases more with
      | nil => cases h; exact ⟨kind, content, .pair, hc⟩
      | cons _ _ => cases h
    · rintro ⟨kind, _, ⟨⟩, hc⟩
      exact ⟨kind, rfl, c, hc, rfl⟩
  · next hobj hone hmany =>
    refine iff_of_false (fun h => by cases h) ?_
    rintro ⟨_, _, _ | _ | _, -⟩
    · exact hmany _ _ _ rfl
    · exact hobj _ rfl
    · exact hobj _ rfl

end

/-! ### Contents -/

section

variable {v : Json}

/-- A number is read from a JSON integer, or from a string with blanks around a spelling. -/
theorem readInteger_eq_ok_iff {α : Type} {parse : List Char → Except NumberFault α}
    {spells : List Char → α → Prop} {n : α} (hparse : ∀ {cs}, parse cs = .ok n ↔ spells cs n)
    (hsolid : ∀ {cs}, spells cs n → cs ≠ [] ∧ ∀ c ∈ cs, isBlank c = false) :
    readInteger parse v = .ok n ↔
      (∃ k : Int, v = .int k ∧ spells (toString k).toList n) ∨
        ∃ s body, v = .str s ∧ IsPadded body s.toList ∧ spells body n := by
  unfold readInteger
  simp only [bind_eq_ok_iff, mapError_eq_ok_iff, hparse]
  cases v with
  | int k =>
    simp only [integerText, Except.ok.injEq, exists_eq_left', trim_toString_int, Json.int.injEq,
      reduceCtorEq, false_and, exists_false, or_false]
  | str s =>
    have htrim := trim_spells_iff hsolid s.toList
    simp [integerText, htrim]
  | _ => simp [integerText]

/-- A content is read as a natural number exactly if it is one in the accepted format. -/
theorem readInteger_natural {n : Nat} :
    readInteger natural v = .ok n ↔ accepted.natural n v := by
  rw [readInteger_eq_ok_iff natural_eq_ok_iff SpellsNatural.solid]
  simp only [spellsNatural_toString_iff, accepted]
  simp

/-- A content is read as an integer exactly if it is one in the accepted format. -/
theorem readInteger_integer {n : Int} :
    readInteger integer v = .ok n ↔ accepted.integer n v := by
  rw [readInteger_eq_ok_iff integer_eq_ok_iff SpellsInteger.solid]
  simp only [spellsInteger_toString_iff, accepted]
  simp

variable {content : Json} {kind : ConstantKind}

theorem ofContent_bool {b : Bool} :
    ofContent content kind = .ok (.bool b) ↔ kind = .bool ∧ content = .bool b := by
  cases kind <;> cases content <;> simp [ofContent, map_eq_ok_iff, misshapen]

theorem ofContent_address {s : String} :
    ofContent content kind = .ok (.address s) ↔ kind = .address ∧ content = .str s := by
  cases kind <;> cases content <;> simp [ofContent, map_eq_ok_iff, misshapen]

theorem ofContent_byteVec {s : String} :
    ofContent content kind = .ok (.byteVec s) ↔ kind = .byteVec ∧ content = .str s := by
  cases kind <;> cases content <;> simp [ofContent, map_eq_ok_iff, misshapen]

/-- An array is read item by item. -/
theorem ofContent_array {cs : List Constant} :
    ofContent content kind = .ok (.array cs) ↔
      kind = .array ∧ ∃ items, content = .arr items ∧ ofItems items = .ok cs := by
  cases kind <;> cases content <;> simp [ofContent, map_eq_ok_iff, misshapen]

/-- The content of a natural number is never negative. -/
theorem ofContent_u256 {n : Nat} :
    ofContent content kind = .ok (.u256 n) ↔ kind = .u256 ∧ accepted.natural n content := by
  rw [← readInteger_natural]
  cases kind <;> cases content <;> simp [ofContent, map_eq_ok_iff, misshapen]

theorem ofContent_i256 {n : Int} :
    ofContent content kind = .ok (.i256 n) ↔ kind = .i256 ∧ accepted.integer n content := by
  rw [← readInteger_integer]
  cases kind <;> cases content <;> simp [ofContent, map_eq_ok_iff, misshapen]

end

/-- A constant is read from a document of its kind, if its content is read. -/
theorem ofJson_eq_ok_iff_of_content {c : Constant} {v : Json} {kind : ConstantKind}
    {p : Json → Prop}
    (h : ∀ content kind', ofContent content kind' = .ok c ↔ kind' = kind ∧ p content) :
    ofJson v = .ok c ↔ ∃ content, p content ∧ IsTagged kind content v := by
  simp only [ofJson_eq_ok_iff_ofContent, h]
  constructor
  · rintro ⟨_, content, htagged, rfl, hp⟩; exact ⟨content, hp, htagged⟩
  · rintro ⟨content, hp, htagged⟩; exact ⟨kind, content, htagged, rfl, hp⟩

theorem ofItems_cons_eq_ok_iff {v : Json} {vs : List Json} {cs : List Constant} :
    ofItems (v :: vs) = .ok cs ↔
      ∃ c cs', ofJson v = .ok c ∧ ofItems vs = .ok cs' ∧ cs = c :: cs' := by
  rw [ofItems]
  simp only [bind_eq_ok_iff]
  constructor
  · rintro ⟨c, hc, cs', hcs', ⟨⟩⟩; exact ⟨c, cs', hc, hcs', rfl⟩
  · rintro ⟨c, cs', hc, hcs', rfl⟩; exact ⟨c, hc, cs', hcs', rfl⟩

mutual

/-- **Exactly the documents of the accepted format are read**, each as the constant that it stands
for. -/
theorem ofJson_eq_ok_iff (c : Constant) (v : Json) : ofJson v = .ok c ↔ c.IsIn accepted v := by
  -- the recursion is on the constant: its documents have many forms, their content has one
  cases c with
  | bool b =>
    rw [ofJson_eq_ok_iff_of_content fun _ _ => ofContent_bool, exists_eq_left]; rfl
  | u256 n => exact ofJson_eq_ok_iff_of_content fun _ _ => ofContent_u256
  | i256 n => exact ofJson_eq_ok_iff_of_content fun _ _ => ofContent_i256
  | address s =>
    rw [ofJson_eq_ok_iff_of_content fun _ _ => ofContent_address, exists_eq_left]; rfl
  | byteVec s =>
    rw [ofJson_eq_ok_iff_of_content fun _ _ => ofContent_byteVec, exists_eq_left]; rfl
  | array cs =>
    rw [ofJson_eq_ok_iff_of_content fun _ _ => ofContent_array, IsIn]
    constructor
    · rintro ⟨_, ⟨items, rfl, hitems⟩, htagged⟩
      exact ⟨items, (ofItems_eq_ok_iff cs items).1 hitems, htagged⟩
    · rintro ⟨items, hitems, htagged⟩
      exact ⟨_, ⟨items, rfl, (ofItems_eq_ok_iff cs items).2 hitems⟩, htagged⟩

/-- Items are read one by one, each as a constant of its own. -/
theorem ofItems_eq_ok_iff (cs : List Constant) (items : List Json) :
    ofItems items = .ok cs ↔ AreIn accepted cs items := by
  cases items with
  | nil => cases cs <;> simp [ofItems, AreIn]
  | cons v vs =>
    rw [ofItems_cons_eq_ok_iff]
    cases cs with
    | nil => simp [AreIn]
    | cons c cs =>
      rw [AreIn]
      constructor
      · rintro ⟨_, _, hv, hvs, ⟨⟩⟩
        exact ⟨v, vs, rfl, (ofJson_eq_ok_iff c v).1 hv, (ofItems_eq_ok_iff cs vs).1 hvs⟩
      · rintro ⟨_, _, ⟨⟩, hv, hvs⟩
        exact ⟨c, cs, (ofJson_eq_ok_iff c v).2 hv, (ofItems_eq_ok_iff cs vs).2 hvs, rfl⟩

end

mutual

/-- A wider format has all documents of a narrower one. -/
theorem IsIn.mono {f g : ConstantFormat}
    (htagged : ∀ kind content v, f.tagged kind content v → g.tagged kind content v)
    (hnatural : ∀ n v, f.natural n v → g.natural n v)
    (hinteger : ∀ n v, f.integer n v → g.integer n v) :
    ∀ (c : Constant) (v : Json), c.IsIn f v → c.IsIn g v
  | .bool _, _, h => htagged _ _ _ h
  | .u256 _, _, ⟨content, hn, h⟩ => ⟨content, hnatural _ _ hn, htagged _ _ _ h⟩
  | .i256 _, _, ⟨content, hn, h⟩ => ⟨content, hinteger _ _ hn, htagged _ _ _ h⟩
  | .address _, _, h => htagged _ _ _ h
  | .byteVec _, _, h => htagged _ _ _ h
  | .array cs, _, ⟨items, hitems, h⟩ =>
    ⟨items, AreIn.mono htagged hnatural hinteger cs items hitems, htagged _ _ _ h⟩

theorem AreIn.mono {f g : ConstantFormat}
    (htagged : ∀ kind content v, f.tagged kind content v → g.tagged kind content v)
    (hnatural : ∀ n v, f.natural n v → g.natural n v)
    (hinteger : ∀ n v, f.integer n v → g.integer n v) :
    ∀ (cs : List Constant) (items : List Json), AreIn f cs items → AreIn g cs items
  | [], _, h => h
  | c :: cs, _, ⟨v, vs, hitems, hv, hvs⟩ =>
    ⟨v, vs, hitems, IsIn.mono htagged hnatural hinteger c v hv,
      AreIn.mono htagged hnatural hinteger cs vs hvs⟩

end

mutual

/-- **Every constant is written in the written format.** -/
theorem isIn_written : ∀ c : Constant, c.IsIn written c.toJson
  | .bool _ => rfl
  | .u256 n => ⟨_, ⟨toString n, rfl, toList_toString_nat n ▸ isDecimal_toDigits n⟩, rfl⟩
  | .i256 n => ⟨_, ⟨toString n, _, rfl, isDecimal_toDigits n.natAbs, toList_toString_int n⟩, rfl⟩
  | .address _ => rfl
  | .byteVec _ => rfl
  | .array cs => ⟨_, areIn_written cs, rfl⟩

/-- Every constant of an array is written in the written format. -/
theorem areIn_written : ∀ cs : List Constant, AreIn written cs (toJsonAll cs)
  | [] => rfl
  | c :: cs => ⟨_, _, rfl, isIn_written c, areIn_written cs⟩

end

/-! ## Reading what was written -/

/-- What is written is accepted. -/
theorem accepted_of_written {c : Constant} {v : Json} (h : c.IsIn written v) :
    c.IsIn accepted v := by
  refine IsIn.mono ?_ ?_ ?_ c v h
  · rintro kind content _ rfl
    refine .tagFirst rfl ?_
    rw [passesOthers_own (Or.inl rfl), passesOthers_own (Or.inr rfl)]
    exact List.forall_mem_nil _
  · rintro n _ ⟨s, rfl, hs⟩
    exact Or.inr ⟨s, s.toList, rfl, isPadded_self _, Or.inl hs.spells⟩
  · rintro n _ ⟨s, digits, rfl, hdigits, hs⟩
    exact Or.inr ⟨s, s.toList, rfl, isPadded_self _, hs ▸ hdigits.spellsInteger⟩

/-- **A constant that is written reads back.** -/
theorem ofJson_toJson (c : Constant) : ofJson c.toJson = .ok c :=
  (ofJson_eq_ok_iff c _).2 (accepted_of_written (isIn_written c))

theorem isTidy_tagged {kind : ConstantKind} {content : Json} (h : content.IsTidy) :
    (tagged kind content).IsTidy :=
  .obj (show List.Nodup ["type", "value"] by decide) (by simp [h])

mutual

/-- What is written for a constant repeats no name. -/
theorem isTidy_toJson : ∀ c : Constant, c.toJson.IsTidy
  | .bool _ => isTidy_tagged (isTidy_bool _)
  | .u256 _ => isTidy_tagged (isTidy_str _)
  | .i256 _ => isTidy_tagged (isTidy_str _)
  | .address _ => isTidy_tagged (isTidy_str _)
  | .byteVec _ => isTidy_tagged (isTidy_str _)
  | .array cs => isTidy_tagged (.arr (isTidy_toJsonAll cs))

theorem isTidy_toJsonAll : ∀ cs : List Constant, ∀ v ∈ toJsonAll cs, v.IsTidy
  | [] => List.forall_mem_nil _
  | c :: cs => List.forall_mem_cons.2 ⟨isTidy_toJson c, isTidy_toJsonAll cs⟩

end

/-- **Constants survive their documents.** A constant is written in the written format, whatever
document it was read from; what was written reads back as the same constant, also from its text, if
the limit leaves room for the nesting; and it is read from exactly the documents that stand for it
in the accepted format. -/
theorem survives_documents (c : Constant) :
    c.IsIn written c.toJson ∧ ofJson c.toJson = .ok c ∧
      (∀ limit, c.toJson.depth ≤ limit →
        readWhole ofJson (Json.ofText c.toJson.write limit) = .ok c) ∧
      ∀ v, ofJson v = .ok c ↔ c.IsIn accepted v := by
  refine ⟨isIn_written c, ofJson_toJson c, fun limit hlimit => ?_, ofJson_eq_ok_iff c⟩
  rw [ofText_write (isTidy_toJson c).isPlain hlimit, readWhole, ofJson_toJson c]
  rfl

/-- A pair and an object, with a content that comes before its tag. -/
theorem survives_documents_nested :
    ofJson (.obj [("value", .arr [.arr [.str "I256", .str " -0_7 "],
        .obj [("note", .null), ("value", .str "+0018446744073709551616"), ("type", .str "U256")]]),
      ("type", .str "Array")]) = .ok (.array [.i256 (-7), .u256 18446744073709551616]) ∧
    (array [.i256 (-7), .u256 18446744073709551616]).toJson.depth ≤ depthLimit ∧
      readWhole ofJson (Json.ofText
        (array [.i256 (-7), .u256 18446744073709551616]).toJson.write depthLimit) =
        .ok (.array [.i256 (-7), .u256 18446744073709551616]) := by
  have hdepth : (array [.i256 (-7), .u256 18446744073709551616]).toJson.depth ≤ depthLimit := by
    decide
  exact ⟨rfl, hdepth, (survives_documents _).2.2.1 _ hdepth⟩

end Constant

end TypedBindings.Abi
